import CloudJob.Limited
import CloudJob.Callers
import CloudJob.Contract.Staged
import CloudJob.Lib.Observer

/-!
# `Safety/RateLimit.lean` — how many reservations a window admits

The system with the counters behind its rate limiter: `reserve` and `release` do what the limiter
does with them, and Redis never fails. A reserve is taken at the moment its script runs; its clock
was read at some time before, by less than the margin.

A counter is what was admitted in its window and not released since, and what was rejected in it: a
rejected attempt is counted, and never taken back. `Metered` says so for as long as the window can
still be reserved in, which is as long as its key cannot expire. -/

set_option autoImplicit false

namespace CloudJob

open Lib

/-! ## Calls -/

section Calls

variable {P : Params} {L : RedisCreateJobRateLimiter} {p : Pid} {o : Op} {ch : Choice}
  {s s' : Limited}

theorem Limited.exec_reserve {u : Uuid} {r : Except Exc (Option CreateJobRateLimitReservationDTO)}
    (he : Limited.exec P L p (.reserve u) ch s = some (r, s')) : ∃ now, ch = .time now ∧ 0 ≤ now ∧
      now ≤ s.shared.core.clock ∧ s.shared.core.clock < now + seconds KEY_EXPIRY_MARGIN_SECONDS ∧
      s' = ⟨s.shared, (L.reserveResult u now s.shared.core.clock s.counters).2⟩ ∧
      r = if (L.reserveResult u now s.shared.core.clock s.counters).1.1 > L.createJobRateLimit then
          .error .rateLimitExceeded
        else .ok (some (L.reservationOf u now
          (L.reserveResult u now s.shared.core.clock s.counters).1.1)) := by
  cases ch with
  | time now =>
    simp only [Limited.exec, L.reserve_eval] at he
    split at he
    · rename_i hnow
      cases he
      refine ⟨now, rfl, hnow.1, hnow.2.1, hnow.2.2, rfl, ?_⟩
      split
      · rfl
      · rfl
    · cases he
  | _ => cases he

theorem Limited.exec_release {res : CreateJobRateLimitReservationDTO} {r : Except Exc Unit}
    (he : Limited.exec P L p (.releaseReservation res) ch s = some (r, s')) :
    r = .ok () ∧ s' = ⟨s.shared,
      (releaseCreateJobRateLimitScript (s.shared.core.clock / 1000) res.key s.counters).2⟩ := by
  cases ch with
  | answer =>
    cases he
    exact ⟨rfl, rfl⟩
  | _ => cases he

/-- Every other call is as it was, and knows nothing of the counters. -/
theorem Limited.exec_other {r : Except Exc o.Ret} (hreserve : ∀ u, o ≠ .reserve u)
    (hrelease : ∀ res, o ≠ .releaseReservation res)
    (he : Limited.exec P L p o ch s = some (r, s')) :
    s.shared.exec P.reads p o ch = some (r, s'.shared) ∧ s'.counters = s.counters := by
  have hsome : (s.shared.exec P.reads p o ch).map (fun x => (x.1, (⟨x.2, s.counters⟩ : Limited))) =
      some (r, s') := by
    cases o with
    | reserve u => exact absurd rfl (hreserve u)
    | releaseReservation res => exact absurd rfl (hrelease res)
    | _ => exact he
  obtain ⟨⟨r', x⟩, hx, heq⟩ := Option.map_eq_some_iff.mp hsome
  cases heq
  exact ⟨hx, rfl⟩

/-- Nobody else's transaction is touched. -/
theorem Limited.exec_staged {q : Pid} {r : Except Exc o.Ret}
    (he : Limited.exec P L p o ch s = some (r, s'))
    (hq : q ≠ p) : s'.shared.staged q = s.shared.staged q := by
  cases o with
  | reserve u =>
    obtain ⟨now, -, -, -, -, rfl, -⟩ := Limited.exec_reserve he
    rfl
  | releaseReservation res =>
    obtain ⟨-, rfl⟩ := Limited.exec_release he
    rfl
  | _ =>
    have hshared := (Limited.exec_other (fun _ ho => Op.noConfusion ho)
      (fun _ ho => Op.noConfusion ho) he).1
    exact (exec_effect hshared).staged_other hq

theorem Limited.exec_clock {r : Except Exc o.Ret} (he : Limited.exec P L p o ch s = some (r, s')) :
    s.shared.core.clock ≤ s'.shared.core.clock := by
  cases o with
  | reserve u =>
    obtain ⟨now, -, -, -, -, rfl, -⟩ := Limited.exec_reserve he
    exact le_refl _
  | releaseReservation res =>
    obtain ⟨-, rfl⟩ := Limited.exec_release he
    exact le_refl _
  | _ =>
    have hshared := (Limited.exec_other (fun _ ho => Op.noConfusion ho)
      (fun _ ho => Op.noConfusion ho) he).1
    exact (exec_effect hshared).extends.clock

end Calls

/-! ## What a counter counts -/

/-- The end of the time in which a script of the window may run, in seconds. -/
def RedisCreateJobRateLimiter.windowEnd (L : RedisCreateJobRateLimiter) (start : Int) : Int :=
  start + (L.createJobRateWindowSeconds : Int) + (KEY_EXPIRY_MARGIN_SECONDS : Int)

/-- One more in a window. -/
def bump (n : Uuid → Int → Nat) (u : Uuid) (start : Int) : Uuid → Int → Nat :=
  fun u' start' => if u' = u ∧ start' = start then n u start + 1 else n u' start'

/-- At `clock`, every window that may still be reserved in has counted `n`, and no key of a window
ends before that. -/
structure Metered (L : RedisCreateJobRateLimiter) (clock : Datetime) (counters : Counters)
    (n : Uuid → Int → Nat) : Prop where
  counts : ∀ u start, clock < 1000000 * L.windowEnd start →
    ((counters (L.windowKey u start)).map Timed.value).getD 0 = n u start
  lasts : ∀ u start e, counters (L.windowKey u start) = some e →
    1 ≤ e.value ∧ ∃ t, e.expiresAt = some t ∧ 1000 * L.windowEnd start ≤ t

section Metered

variable {L : RedisCreateJobRateLimiter} {clock now : Int} {counters : Counters}
  {n : Uuid → Int → Nat} {u : Uuid} {start : Int}

theorem epochOf_of_nonneg (h : 0 ≤ now) : 1000000 * epochOf now ≤ now ∧
    now < 1000000 * (epochOf now + 1) := by
  have heq : epochOf now = now / 1000000 := Int.tdiv_eq_ediv_of_nonneg h
  rw [heq]
  omega

/-- A reading is in its own window. -/
theorem windowStartEpoch_spec (L : RedisCreateJobRateLimiter) (h : 0 ≤ now) :
    1000000 * L.windowStartEpoch now ≤ now ∧
      now < 1000000 * (L.windowStartEpoch now + (L.createJobRateWindowSeconds : Int)) := by
  obtain ⟨hlow, hhigh⟩ := epochOf_of_nonneg h
  have hpos : (0 : Int) < (L.createJobRateWindowSeconds : Int) := by
    have hwindow := L.window_pos
    omega
  have hmod := Int.emod_nonneg (epochOf now) (ne_of_gt hpos)
  have hlt := Int.emod_lt_of_pos (epochOf now) hpos
  unfold RedisCreateJobRateLimiter.windowStartEpoch
  constructor
  · omega
  · omega

/-- A script runs while the window it belongs to may still be reserved in. -/
theorem clock_lt_windowEnd (hnow : 0 ≤ now) (h : clock < now + seconds KEY_EXPIRY_MARGIN_SECONDS) :
    clock < 1000000 * L.windowEnd (L.windowStartEpoch now) := by
  have hspec := (windowStartEpoch_spec L hnow).2
  unfold seconds at h
  unfold RedisCreateJobRateLimiter.windowEnd
  omega

/-- What is there of a window that may still be reserved in, can be read. -/
theorem Metered.entry (h : Metered L clock counters n)
    (hlive : clock < 1000000 * L.windowEnd start) :
    counters.entry (clock / 1000) (L.windowKey u start) = counters (L.windowKey u start) := by
  cases he : counters (L.windowKey u start) with
  | none => exact Expiring.entry_of_none he
  | some e =>
    obtain ⟨-, t, ht, hle⟩ := h.lasts u start e he
    refine Expiring.entry_eq_some.mpr ⟨he, Expiring.isLive_iff.mpr fun t' ht' => ?_⟩
    rw [ht] at ht'
    cases ht'
    omega

/-- Time passes. -/
theorem Metered.later {clock' : Datetime} (h : Metered L clock counters n) (hle : clock ≤ clock') :
    Metered L clock' counters n :=
  ⟨fun u start hlive => h.counts u start (lt_of_le_of_lt hle hlive), h.lasts⟩

theorem Metered.congr {n' : Uuid → Int → Nat} (h : Metered L clock counters n)
    (heq : ∀ u start, n u start = n' u start) : Metered L clock counters n' :=
  ⟨fun u start hlive => (h.counts u start hlive).trans (heq u start), h.lasts⟩

/-- A change of one window's entry. -/
theorem Metered.set {counters' : Counters} {n' : Uuid → Int → Nat} (h : Metered L clock counters n)
    (hother : ∀ u' start', ¬ (u' = u ∧ start' = start) →
      counters' (L.windowKey u' start') = counters (L.windowKey u' start') ∧
      n' u' start' = n u' start')
    (hcount : clock < 1000000 * L.windowEnd start →
      ((counters' (L.windowKey u start)).map Timed.value).getD 0 = n' u start)
    (hlast : ∀ e, counters' (L.windowKey u start) = some e →
      1 ≤ e.value ∧ ∃ t, e.expiresAt = some t ∧ 1000 * L.windowEnd start ≤ t) :
    Metered L clock counters' n' where
  counts u' start' hlive := by
    by_cases hsame : u' = u ∧ start' = start
    · obtain ⟨rfl, rfl⟩ := hsame
      exact hcount hlive
    · rw [(hother u' start' hsame).1, (hother u' start' hsame).2]
      exact h.counts u' start' hlive
  lasts u' start' e he := by
    by_cases hsame : u' = u ∧ start' = start
    · obtain ⟨rfl, rfl⟩ := hsame
      exact hlast e he
    · rw [(hother u' start' hsame).1] at he
      exact h.lasts u' start' e he

theorem windowKey_ne {u' : Uuid} {start' : Int} (h : ¬ (u' = u ∧ start' = start)) :
    L.windowKey u' start' ≠ L.windowKey u start :=
  fun heq => h (RedisCreateJobRateLimiter.windowKey_inj heq)

/-- **A reserve** counts itself, and is told what there was before and itself. -/
theorem Metered.reserve (h : Metered L clock counters n) (hnow : 0 ≤ now) (hle : now ≤ clock)
    (hlt : clock < now + seconds KEY_EXPIRY_MARGIN_SECONDS) :
    (L.reserveResult u now clock counters).1.1 = n u (L.windowStartEpoch now) + 1 ∧
    Metered L clock (L.reserveResult u now clock counters).2
    (bump n u (L.windowStartEpoch now)) := by
  have hlive := clock_lt_windowEnd (L := L) hnow hlt
  have hlow := (windowStartEpoch_spec L hnow).1
  have hcount := h.counts u _ hlive
  have hentry := h.entry (u := u) hlive
  unfold RedisCreateJobRateLimiter.reserveResult
  generalize hstart : L.windowStartEpoch now = start at *
  have hbump : bump n u start u start = n u start + 1 := if_pos ⟨rfl, rfl⟩
  have hother : ∀ (v : Nat) (t : Option Int) (u' : Uuid) (start' : Int),
    ¬ (u' = u ∧ start' = start) →
      (counters.put (L.windowKey u start) v t) (L.windowKey u' start') = counters
      (L.windowKey u' start') ∧ bump n u start u' start' = n u' start' :=
    fun v t u' start' hne => ⟨Expiring.put_of_ne (windowKey_ne hne), if_neg hne⟩
  cases he : counters (L.windowKey u start) with
  | none =>
    rw [he] at hentry hcount
    obtain ⟨hcurrent, hcounters⟩ := createJobRateLimitScript_none
      (n := L.createJobRateWindowSeconds + KEY_EXPIRY_MARGIN_SECONDS) hentry
    have hzero : n u start = 0 := hcount.symm
    rw [hcurrent, hcounters]
    refine ⟨by omega, h.set (hother _ _) (fun _ => ?_) fun e he' => ?_⟩
    · rw [Expiring.put_self, hbump]
      simp only [Option.map_some, Option.getD_some]
      omega
    · rw [Expiring.put_self] at he'
      cases he'
      refine ⟨Nat.le_refl 1, _, rfl, ?_⟩
      unfold RedisCreateJobRateLimiter.windowEnd
      push_cast
      omega
  | some e =>
    rw [he] at hentry hcount
    obtain ⟨hpos, t, ht, hend⟩ := h.lasts u start e he
    obtain ⟨hcurrent, hcounters⟩ := createJobRateLimitScript_some
      (n := L.createJobRateWindowSeconds + KEY_EXPIRY_MARGIN_SECONDS) hentry hpos
    have hvalue : e.value = n u start := hcount
    rw [hcurrent, hcounters]
    refine ⟨by omega, h.set (hother _ _) (fun _ => ?_) fun e' he' => ?_⟩
    · rw [Expiring.put_self, hbump]
      simp only [Option.map_some, Option.getD_some]
      omega
    · rw [Expiring.put_self] at he'
      cases he'
      exact ⟨Nat.le_add_left 1 _, t, ht, hend⟩

/-- **A release** takes one away, whatever is left of the key. -/
theorem Metered.release {n' : Uuid → Int → Nat} (h : Metered L clock counters n)
    (hn : n u start = n' u start + 1)
    (hn' : ∀ u' start', ¬ (u' = u ∧ start' = start) → n' u' start' = n u' start') :
    Metered L clock (releaseCreateJobRateLimitScript (clock / 1000) (L.windowKey u start)
      counters).2 n' := by
  cases he : counters.entry (clock / 1000) (L.windowKey u start) with
  | none =>
    rw [releaseCreateJobRateLimitScript_none he]
    refine h.set (fun u' start' hne => ⟨rfl, hn' u' start' hne⟩) (fun hlive => ?_) (h.lasts u start)
    -- the key can only have gone after the end of the window
    have hcount := h.counts u start hlive
    rw [← h.entry hlive, he] at hcount
    have hzero : 0 = n u start := hcount
    omega
  | some e =>
    have hkey := (Expiring.entry_eq_some.mp he).1
    obtain ⟨hpos, t, ht, hend⟩ := h.lasts u start e hkey
    have hvalue : clock < 1000000 * L.windowEnd start → e.value = n u start := fun hlive => by
      have hcount := h.counts u start hlive
      rw [hkey] at hcount
      exact hcount
    by_cases hlast : e.value ≤ 1
    · rw [releaseCreateJobRateLimitScript_last he hlast]
      refine h.set (fun u' start' hne => ⟨Expiring.del_of_ne (windowKey_ne hne), hn' u' start' hne⟩)
        (fun hlive => ?_) fun e' he' => ?_
      · rw [Expiring.del_self]
        have heq := hvalue hlive
        show 0 = n' u start
        omega
      · rw [Expiring.del_self] at he'
        cases he'
    · rw [releaseCreateJobRateLimitScript_some he (Nat.not_le.mp hlast)]
      refine h.set (fun u' start' hne => ⟨Expiring.put_of_ne (windowKey_ne hne), hn' u' start' hne⟩)
        (fun hlive => ?_) fun e' he' => ?_
      · rw [Expiring.put_self]
        have heq := hvalue hlive
        simp only [Option.map_some, Option.getD_some]
        omega
      · rw [Expiring.put_self] at he'
        cases he'
        exact ⟨Nat.le_sub_one_of_lt (Nat.not_le.mp hlast), t, ht, hend⟩

end Metered

/-! ## What was admitted -/

/-- A reservation: who was admitted, for which user and in which window. -/
structure Grant where
  pid : Pid
  userId : Uuid
  windowStart : Int
deriving DecidableEq

/-- A job in the database, the reservation its request had, and whether the commit was answered. -/
structure Creation where
  grant : Grant
  job : Uuid
  answered : Bool

/-- Notes on the reservations: those admitted and not released since, the attempts that were
rejected, and the jobs that were created. -/
structure Quota where
  held : List Grant := []
  rejected : List (Uuid × Int) := []
  created : List Creation := []

namespace Quota

variable (g : Quota) (u : Uuid) (start : Int)

def outstanding : Nat := g.held.countP fun x => x.userId == u && x.windowStart == start

def rejections : Nat := g.rejected.count (u, start)

/-- What was created by the user from reservations of the window. -/
def creations : List Creation :=
  g.created.filter fun x => x.grant.userId == u && x.grant.windowStart == start

def jobs : List Uuid := (g.creations u start).map Creation.job

/-- How many of the jobs were committed by a commit that raised. -/
def unanswered : Nat := (g.creations u start).countP fun x => !x.answered

end Quota

def Stmt.insertedJob : Stmt → Option Uuid
  | .insertJob job => some job.id
  | _ => none

/-- `p` has committed what it had staged. -/
def Quota.create (p : Pid) (staged : List Stmt) (answered : Bool) (g : Quota) : Quota :=
  { g with created := ((g.held.filter fun x => x.pid == p).flatMap fun x =>
      (staged.filterMap Stmt.insertedJob).map fun job => ⟨x, job, answered⟩) ++ g.created }

/-- A call of `p`, which has staged `staged`. A commit may take effect and raise: the job is there,
and `create_job`, which cannot tell, releases its reservation. -/
def Quota.call (L : RedisCreateJobRateLimiter) (p : Pid) (staged : List Stmt)
    (c : Choice) (g : Quota) : (o : Op) → Except Exc o.Ret → Quota
  | .reserve u, r => match c, r with
    | .time now, .ok _ => { g with held := ⟨p, u, L.windowStartEpoch now⟩ :: g.held }
    | .time now, .error _ => { g with rejected := (u, L.windowStartEpoch now) :: g.rejected }
    | _, _ => g
  | .releaseReservation res, _ => { g with
      held := g.held.filter fun x => !(x.pid == p &&
        L.windowKey x.userId x.windowStart == res.key) }
  | .commit, .ok _ => g.create p staged true
  | .commit, .error _ => match c with
    | .failsAfter _ => g.create p staged false
    | _ => g
  | _, _ => g

/-- A commit is not about the reservations. -/
theorem Quota.call_commit (L : RedisCreateJobRateLimiter) (p : Pid)
    (staged : List Stmt) (c : Choice) (g : Quota) (r : Except Exc Unit) :
    (g.call L p staged c .commit r).held = g.held ∧
    (g.call L p staged c .commit r).rejected = g.rejected := by
  cases r with
  | ok a => exact ⟨rfl, rfl⟩
  | error e => cases c <;> exact ⟨rfl, rfl⟩

/-- Written down along a run. -/
def quota {P : Params} {L : RedisCreateJobRateLimiter} : Notes (limited P L) Quota :=
  fun w m _ g => match m with
    | .run p c => match w.procs p with
      | some (_, .call o _) => match Limited.exec P L p o c w.shared with
        | some (r, _) => g.call L p (w.shared.shared.staged p) c o r
        | none => g
      | _ => g
    | _ => g

/-! ## The text of `create_job` -/

/-- Where a process stands with its reservation. -/
inductive Allowance where
  | unasked
  | admitted (r : CreateJobRateLimitReservationDTO)
  /-- The job was written, and is not committed. -/
  | written (r : CreateJobRateLimitReservationDTO)
  | spent
  | refused

/-- One reserve, one job, one commit; a release is of the reservation in hand, and nothing is
committed after it. With Redis working, a reserve that does not raise has a reservation. -/
@[reducible] def reserving : Discipline sig where
  State := Allowance
  ok q o := match o with
    | .reserve _ => q = .unasked
    | .releaseReservation r => q = .admitted r ∨ q = .written r
    | .write (.insertJob _) => ∃ r, q = .admitted r
    | .commit => q ≠ .refused
    | _ => True
  may _ o r := match o, r with
    | .reserve _, .ok none => False
    | _, _ => True
  next q o r := match o, r with
    | .reserve _, .ok (some r) => .admitted r
    | .reserve _, .ok none => .refused
    | .reserve _, .error _ => .refused
    | .releaseReservation _, _ => .refused
    | .write (.insertJob _), _ => match q with
      | .admitted r => .written r
      | q => q
    | .commit, .ok _ => match q with
      | .written _ => .spent
      | q => q
    | _, _ => q

/-- A program that makes no call of `create_job`'s stays where it is. -/
theorem CreatesNothing.obeys {α : Type} {m : Code α} (h : CreatesNothing m) {q : Allowance}
    (hq : q = .unasked ∨ q = .spent) : reserving.Obeys m (fun _ q' => q' = q) q := by
  have hstays : Prog.Asks (S := sig) (fun o => ∀ q', q' = q → reserving.ok q' o ∧
      ∀ r, reserving.next q' o r = q) m := by
    refine h.mono fun o ho q' hq' => ?_
    rw [hq']
    cases o with
    | reserve u => cases ho
    | releaseReservation r => cases ho
    | write st => cases st with
      | insertJob job => cases ho
      | _ => exact ⟨trivial, fun _ => rfl⟩
    | commit =>
      refine ⟨?_, fun r => ?_⟩
      · rcases hq with rfl | rfl <;> nofun
      · cases r with
        | error e => rfl
        | ok a => rcases hq with rfl | rfl <;> rfl
    | _ => exact ⟨trivial, fun _ => rfl⟩
  exact Discipline.Obeys.of_asks (D := reserving) (I := fun q' => q' = q) hstays (Eq.refl q)

theorem reserving_withUow {α : Type} {body : Code α} {q : Allowance}
    {R : Except Exc α → Allowance → Prop}
    (h : reserving.Obeys body R q) (henter : ∀ e, R (.error e) q)
    (hexit : ∀ a e q', R (.ok a) q' → R (.error e) q') (hraise : ∀ e e' q', R (.error e) q' →
      R (.error e') q') :
    reserving.Obeys (withUow body) R q := by
  refine .perform trivial (fun _ _ => .bind (.attempt (h.mono fun r q' hr => ?_))) fun e _ =>
    henter e
  cases r with
  | ok a => exact .perform trivial (fun _ _ => hr) fun e _ => hexit a e q' hr
  | error e => exact .perform trivial (fun _ _ => hr) fun e' _ => hraise e e' q' hr

namespace JobService

/-- The job is committed, or there is still a reservation to release. -/
def Reserved (r : CreateJobRateLimitReservationDTO) {α : Type} : Except Exc α → Allowance → Prop
  | .ok _, q => q = .spent
  | .error _, q => q = .admitted r ∨ q = .written r

theorem insertJob_reserves (settings : Settings) (user : CurrentUserDTO) (key : String)
    (type : JobType) (payload : Json) (hash : String) (r : CreateJobRateLimitReservationDTO) :
    reserving.Obeys (insertJob settings user key type payload hash) (Reserved r) (.admitted r) := by
  unfold insertJob Jobs.createPendingJob JobLogs.createJobCreatedLog JobLogs.createSystemLog
    Outbox.createDispatchEvent uuid4 utcNow Prog.tryCatch
  simp only [Prog.bind_eq, Prog.pure_eq, Prog.bind_assoc, Prog.ret_bind]
  -- the job
  refine .perform trivial (fun id _ => ?_) fun _ _ => .inl rfl
  refine .perform trivial (fun createdAt _ => ?_) fun _ _ => .inl rfl
  refine .perform trivial (fun updatedAt _ => ?_) fun _ _ => .inl rfl
  refine .bind (.attempt ⟨⟨r, rfl⟩, fun written _ => ?_⟩)
  cases written with
  | error e =>
    cases e with
    | integrity orig =>
      show reserving.Obeys ((if _ then _ else _ : Code Bool).bind _) _ _
      split
      · exact .inr rfl
      · exact .inr rfl
    | _ => exact .inr rfl
  | ok written =>
    -- its log, its dispatch event and the commit
    refine .perform trivial (fun _ _ => ?_) fun _ _ => .inr rfl
    refine .perform trivial (fun _ _ => ?_) fun _ _ => .inr rfl
    refine .perform trivial (fun _ _ => ?_) fun _ _ => .inr rfl
    refine .perform trivial (fun _ _ => ?_) fun _ _ => .inr rfl
    refine .perform trivial (fun _ _ => ?_) fun _ _ => .inr rfl
    refine .perform trivial (fun _ _ => ?_) fun _ _ => .inr rfl
    exact .perform nofun (fun _ _ => rfl) fun _ _ => .inr rfl

theorem createJob_reserves (sha256 : String → String) (settings : Settings) (user : CurrentUserDTO)
    (key : String) (type : JobType) (payload : Json) :
    reserving.Obeys (createJob sha256 settings user key type payload)
      (fun _ _ => True) .unasked := by
  have hrelease : ∀ (r : CreateJobRateLimitReservationDTO) (q : Allowance)
    (m : Code (Option JobCreateResultDTO)),
      q = .admitted r ∨ q = .written r → reserving.Obeys m (fun out q' => out = .ok none →
        q' = .refused) .refused →
      reserving.Obeys ((releaseReservation (some r)).bind fun _ => m)
        (fun out q' => out = .ok none → q' = .refused) q := by
    intro r q m hq hm
    exact .perform hq (fun _ _ => hm) fun _ _ => nofun
  unfold createJob Jobs.getByIdempotencyKey
  simp only [Prog.bind_eq, Prog.pure_eq, Prog.bind_assoc, Prog.ret_bind]
  refine .bind ((reserving_withUow (R := fun out q' => out = .ok none → q' = .refused) ?_
    (fun _ => nofun) (fun _ _ _ _ => nofun) (fun _ _ _ _ => nofun)).mono fun result q hr => ?_)
  · refine .perform trivial (fun existing _ => ?_) fun _ _ => nofun
    cases existing with
    | some job =>
      show reserving.Obeys ((validateExistingJob _ _).bind _) _ _
      unfold validateExistingJob
      split
      · exact fun h => by cases h
      · exact fun h => by cases h
    | none =>
      refine .perform rfl (fun reservation hmay => ?_) fun _ _ => nofun
      cases reservation with
      | none => cases hmay
      | some r =>
        refine .bind (.attempt ((insertJob_reserves settings user key type payload _ r).mono
          fun out q hq => ?_))
        cases out with
        | ok job =>
          have hq : q = .spent := hq
          subst hq
          have hinvalidate : CreatesNothing (invalidateOwner user.id) :=
            .tryCatch (.perform rfl) fun _ => trivial
          refine .bind ((hinvalidate.obeys (.inr rfl)).mono fun out q hq => ?_)
          cases out with
          | error e => exact nofun
          | ok a =>
            have hnotify := (notifyPostCommit_common (toJobPublicDto job)).createsNothing
            rw [hq]
            refine .bind ((hnotify.obeys (.inr rfl)).mono fun out q hq => ?_)
            cases out with
            | error e => exact nofun
            | ok a => exact fun h => by cases h
        | error e => cases e with
          | duplicateJobIdempotencyKey =>
            exact hrelease r q _ hq (.perform trivial (fun _ _ _ => rfl) fun _ _ => nofun)
          | _ => exact hrelease r q _ hq nofun
  · cases result with
    | error e => trivial
    | ok result => cases result with
      | some result => trivial
      | none =>
        rw [hr rfl]
        unfold loadExistingJob Jobs.getByIdempotencyKey
        simp only [Prog.bind_eq, Prog.pure_eq, Prog.bind_assoc, Prog.ret_bind]
        refine .bind ((reserving_withUow (R := fun _ _ => True) ?_ (fun _ => trivial)
          (fun _ _ _ _ => trivial)
          (fun _ _ _ _ => trivial)).mono fun out q _ => by cases out <;> trivial)
        refine .perform trivial (fun existing _ => ?_) fun _ _ => trivial
        cases existing with
        | none => trivial
        | some job =>
          show reserving.Obeys (validateExistingJob _ _) _ _
          unfold validateExistingJob
          split
          · trivial
          · trivial

end JobService

/-- Every operation. -/
theorem Call.prog_reserves (P : Params) (c : Call) :
    reserving.Obeys (c.prog P) (fun _ _ => True) .unasked := by
  by_cases hc : ∃ settings user key type payload, c = .createJob settings user key type payload
  · obtain ⟨settings, user, key, type, payload, rfl⟩ := hc
    refine .bind ((JobService.createJob_reserves P.sha256 settings user key type payload).mono
      fun r q _ => ?_)
    cases r <;> trivial
  · have hnothing := Call.prog_createsNothing P (c := c) fun settings user key type payload heq =>
      hc ⟨settings, user, key, type, payload, heq⟩
    exact (hnothing.obeys (.inl rfl)).mono fun _ _ _ => trivial

/-! ## Along a run -/

/-- The reservation of `p` is not released, and `p` knows of no job created from it. -/
def Owns (L : RedisCreateJobRateLimiter) (g : Quota) (p : Pid)
    (r : CreateJobRateLimitReservationDTO) : Prop :=
  (∃ x ∈ g.held, x.pid = p ∧ r.key = L.windowKey x.userId x.windowStart) ∧
    ∀ x ∈ g.created, x.answered = true → x.grant.pid ≠ p

/-- What is so of a process, by where it stands; `staged` is what it has staged. -/
def Holding (L : RedisCreateJobRateLimiter) (g : Quota) (staged : List Stmt) (p : Pid) :
    Allowance → Prop
  | .unasked => (∀ x ∈ g.held, x.pid ≠ p) ∧ staged.filterMap Stmt.insertedJob = []
  | .admitted r => Owns L g p r ∧ staged.filterMap Stmt.insertedJob = []
  | .written r => Owns L g p r ∧ (staged.filterMap Stmt.insertedJob).length ≤ 1
  | .spent => staged.filterMap Stmt.insertedJob = []
  | .refused => True

/-- What is so of the notes and the counters. -/
structure Quota.Fits (L : RedisCreateJobRateLimiter) (s : Limited) (g : Quota) : Prop where
  pids : (g.held.map Grant.pid).Nodup
  held : ∀ x ∈ g.created, x.answered = true → x.grant ∈ g.held
  created : ((g.created.filter Creation.answered).map fun x => x.grant.pid).Nodup
  metered : Metered L s.shared.core.clock s.counters fun u start =>
    g.outstanding u start + g.rejections u start
  limit : ∀ u start, g.outstanding u start ≤ L.createJobRateLimit

section Step

variable {P : Params} {L : RedisCreateJobRateLimiter} {p q : Pid} {o : Op} {ch : Choice}
  {s s' : Limited}
  {g g' : Quota} {a : Allowance} {staged staged' : List Stmt} {u : Uuid} {start : Int}

theorem Holding.shrink (h : Holding L g staged p a) (hst : staged' = staged ∨ staged' = []) :
    Holding L g staged' p a := by
  rcases hst with rfl | rfl
  · exact h
  · cases a with
    | unasked => exact ⟨h.1, rfl⟩
    | admitted r => exact ⟨h.1, rfl⟩
    | written r => exact ⟨h.1, Nat.zero_le 1⟩
    | spent => rfl
    | refused => trivial

/-- The notes about the others are another matter. -/
theorem Holding.other (h : Holding L g staged q a)
    (hheld : ∀ x, x.pid = q → (x ∈ g'.held ↔ x ∈ g.held))
    (hcreated : ∀ x ∈ g'.created, x.grant.pid = q → x ∈ g.created) : Holding L g' staged q a := by
  have howns : ∀ {r}, Owns L g q r → Owns L g' q r := fun ⟨⟨x, hx, hpid, hkey⟩, hno⟩ =>
    ⟨⟨x, (hheld x hpid).mpr hx, hpid, hkey⟩,
      fun y hy hans hpid' => hno y (hcreated y hy hpid') hans hpid'⟩
  cases a with
  | unasked => exact ⟨fun x hx hpid => h.1 x ((hheld x hpid).mp hx) hpid, h.2⟩
  | admitted r => exact ⟨howns h.1, h.2⟩
  | written r => exact ⟨howns h.1, h.2⟩
  | spent => exact h
  | refused => trivial

theorem outstanding_cons (g : Quota) (u : Uuid) (start : Int) (x : Grant) :
    Quota.outstanding { g with held := x :: g.held } u start =
    if x.userId = u ∧ x.windowStart = start then g.outstanding u start + 1 else
    g.outstanding u start := by
  unfold Quota.outstanding
  rw [List.countP_cons]
  by_cases hx : x.userId = u ∧ x.windowStart = start
  · simp [hx]
  · rw [if_neg hx, if_neg]
    · rfl
    · simpa using hx

theorem outstanding_erase {x : Grant} (hx : x ∈ g.held) :
    Quota.outstanding { g with held := g.held.erase x } u start =
      if x.userId = u ∧ x.windowStart = start then g.outstanding u start - 1 else
      g.outstanding u start := by
  unfold Quota.outstanding
  rw [List.countP_erase]
  by_cases hin : x.userId = u ∧ x.windowStart = start
  · simp [hin, hx]
  · have hnot : ¬ (x.userId == u && x.windowStart == start) = true := by simpa using hin
    rw [if_neg hin, if_neg fun hboth => hnot hboth.2]
    rfl

theorem rejections_cons (g : Quota) (u : Uuid) (start : Int) (x : Uuid × Int) :
    Quota.rejections { g with rejected := x :: g.rejected } u start =
    if u = x.1 ∧ start = x.2 then g.rejections u start + 1 else g.rejections u start := by
  unfold Quota.rejections
  rw [List.count_cons]
  by_cases hx : u = x.1 ∧ start = x.2
  · rw [if_pos hx, hx.1, hx.2]
    simp
  · rw [if_neg hx, if_neg]
    · rfl
    · intro heq
      have hpair := eq_of_beq heq
      exact hx ⟨(congrArg Prod.fst hpair).symm, (congrArg Prod.snd hpair).symm⟩

/-- The one grant of a process. -/
theorem eq_of_pid (h : (g.held.map Grant.pid).Nodup) {x y : Grant} (hx : x ∈ g.held)
    (hy : y ∈ g.held) (hpid : x.pid = y.pid) : x = y := List.inj_on_of_nodup_map h hx hy hpid

/-- What a call of `p` keeps. -/
structure Quota.Step (L : RedisCreateJobRateLimiter) (p : Pid) (g g' : Quota) (s' : Limited)
    (a' : Allowance) : Prop where
  fits : g'.Fits L s'
  holding : Holding L g' (s'.shared.staged p) p a'
  held : ∀ x, x.pid ≠ p → (x ∈ g'.held ↔ x ∈ g.held)
  created : ∀ x ∈ g'.created, x.grant.pid ≠ p → x ∈ g.created

theorem Quota.Fits.later (h : g.Fits L s) (hcounters : s'.counters = s.counters)
    (hclock : s.shared.core.clock ≤ s'.shared.core.clock) : g.Fits L s' := by
  refine ⟨h.pids, h.held, h.created, ?_, h.limit⟩
  rw [hcounters]
  exact h.metered.later hclock

/-- A call that the notes are not about. -/
theorem Quota.Fits.same (h : g.Fits L s) (hcounters : s'.counters = s.counters)
    (hclock : s.shared.core.clock ≤ s'.shared.core.clock)
    (hh : Holding L g (s'.shared.staged p) p a) : Quota.Step L p g g s' a :=
  ⟨h.later hcounters hclock, hh, fun _ _ => Iff.rfl, fun _ hx _ => hx⟩

/-- **Reserving.** -/
theorem Quota.Fits.reserve {r : Except Exc (Option CreateJobRateLimitReservationDTO)}
    (h : g.Fits L s) (hh : Holding L g (s.shared.staged p) p .unasked)
    (he : Limited.exec P L p (.reserve u) ch s = some (r, s')) :
    Quota.Step L p g (g.call L p (s.shared.staged p) ch (.reserve u) r) s'
      (reserving.next .unasked (.reserve u) r) := by
  obtain ⟨now, rfl, hnow, hle, hlt, rfl, rfl⟩ := Limited.exec_reserve he
  obtain ⟨hcount, hmetered⟩ := h.metered.reserve (u := u) hnow hle hlt
  generalize hstart : L.windowStartEpoch now = start at hcount hmetered
  split
  · refine ⟨⟨h.pids, h.held, h.created, ?_, h.limit⟩, trivial, fun _ _ => Iff.rfl, fun _ hx _ => hx⟩
    refine hmetered.congr fun u' start' => ?_
    show bump _ u start u' start' = g.outstanding u' start' +
      Quota.rejections { g with rejected := (u, L.windowStartEpoch now) :: g.rejected } u' start'
    rw [hstart, rejections_cons, bump]
    split
    · rename_i heq
      rw [heq.1, heq.2]
      omega
    · rfl
  · rename_i hle'
    have hroom : g.outstanding u start + 1 ≤ L.createJobRateLimit := by omega
    have hout : ∀ u' start', Quota.outstanding
        { g with held := ⟨p, u, L.windowStartEpoch now⟩ :: g.held } u' start' =
        if u' = u ∧ start' = start then g.outstanding u start + 1 else g.outstanding u' start' := by
      intro u' start'
      rw [outstanding_cons]
      simp only [hstart]
      by_cases heq : u' = u ∧ start' = start
      · rw [if_pos heq, if_pos ⟨heq.1.symm, heq.2.symm⟩, heq.1, heq.2]
      · rw [if_neg heq, if_neg fun heq' => heq ⟨heq'.1.symm, heq'.2.symm⟩]
    refine ⟨⟨?_, ?_, h.created, ?_, ?_⟩, ⟨⟨⟨_, List.mem_cons_self, rfl, rfl⟩, ?_⟩, hh.2⟩, ?_,
      fun _ hx _ => hx⟩
    · show ((⟨p, u, L.windowStartEpoch now⟩ :: g.held : List Grant).map Grant.pid).Nodup
      rw [List.map_cons, List.nodup_cons]
      refine ⟨fun hmem => ?_, h.pids⟩
      obtain ⟨x, hx, hpid⟩ := List.mem_map.mp hmem
      exact hh.1 x hx hpid
    · exact fun x hx hans => List.mem_cons_of_mem _ (h.held x hx hans)
    · refine hmetered.congr fun u' start' => ?_
      show bump _ u start u' start' = Quota.outstanding
        { g with held := ⟨p, u, L.windowStartEpoch now⟩ :: g.held } u' start' +
        g.rejections u' start'
      rw [hout, bump]
      split
      · rename_i heq
        rw [heq.1, heq.2]
        omega
      · rfl
    · intro u' start'
      show Quota.outstanding { g with held := ⟨p, u, L.windowStartEpoch now⟩ :: g.held } u' start' ≤
        _
      rw [hout]
      split
      · exact hroom
      · exact h.limit u' start'
    · exact fun x hx hans => hh.1 x.grant (h.held x hx hans)
    · intro x hx
      show x ∈ (⟨p, u, L.windowStartEpoch now⟩ :: g.held : List Grant) ↔ _
      rw [List.mem_cons]
      exact or_iff_right fun heq => hx (congrArg Grant.pid heq)

/-- A release takes the grant of its process away, and nothing else. -/
theorem Owns.call_release {res : CreateJobRateLimitReservationDTO} (howns : Owns L g p res)
    (staged : List Stmt) (ch : Choice) (hpids : (g.held.map Grant.pid).Nodup)
    (r : Except Exc Unit) : ∃ x ∈ g.held, x.pid = p ∧ res.key = L.windowKey x.userId x.windowStart ∧
      g.call L p staged ch (.releaseReservation res) r = { g with held := g.held.erase x } := by
  obtain ⟨⟨x, hx, hpid, hkey⟩, -⟩ := howns
  refine ⟨x, hx, hpid, hkey, congrArg (fun l => { g with held := l }) ?_⟩
  rw [hpids.of_map.erase_eq_filter]
  refine List.filter_congr fun y hy => ?_
  by_cases hyx : y = x
  · rw [hyx, hpid, hkey]
    simp
  · have hne : ¬ y.pid = p := fun heq => hyx (eq_of_pid hpids hy hx (heq.trans hpid.symm))
    have hpid' : (y.pid == p) = false := beq_eq_false_iff_ne.mpr hne
    have hyx' : (y != x) = true := bne_iff_ne.mpr hyx
    rw [hpid', hyx']
    rfl

theorem one_le_outstanding {x : Grant} (hx : x ∈ g.held) :
    1 ≤ g.outstanding x.userId x.windowStart := by
  unfold Quota.outstanding
  exact List.countP_pos_iff.mpr ⟨x, hx, by simp⟩

/-- **Releasing.** -/
theorem Quota.Fits.release {res : CreateJobRateLimitReservationDTO} {r : Except Exc Unit}
    (h : g.Fits L s) (howns : Owns L g p res)
    (he : Limited.exec P L p (.releaseReservation res) ch s = some (r, s')) :
    Quota.Step L p g (g.call L p (s.shared.staged p) ch (.releaseReservation res) r) s'
      .refused := by
  obtain ⟨rfl, rfl⟩ := Limited.exec_release he
  obtain ⟨x, hx, hpid, hkey, hcall⟩ := howns.call_release (s.shared.staged p) ch h.pids (.ok ())
  have hno := howns.2
  have hheld : ∀ y, y ∈ g.held.erase x ↔ y ≠ x ∧ y ∈ g.held := fun y => h.pids.of_map.mem_erase_iff
  have hone := one_le_outstanding hx
  rw [hcall]
  refine ⟨⟨?_, ?_, h.created, ?_, ?_⟩, trivial, ?_, fun _ hy _ => hy⟩
  · exact h.pids.sublist (List.erase_sublist.map Grant.pid)
  · intro y hy hans
    refine (hheld y.grant).mpr ⟨fun heq => hno y hy hans ?_, h.held y hy hans⟩
    rw [heq]
    exact hpid
  · show Metered L s.shared.core.clock (releaseCreateJobRateLimitScript _ _ _).2 _
    rw [hkey]
    refine h.metered.release ?_ fun u' start' hne => ?_
    · show _ = Quota.outstanding { g with held := g.held.erase x } _ _ + g.rejections _ _ + 1
      rw [outstanding_erase hx, if_pos ⟨rfl, rfl⟩]
      omega
    · show Quota.outstanding { g with held := g.held.erase x } _ _ + g.rejections _ _ = _
      rw [outstanding_erase hx, if_neg fun heq => hne ⟨heq.1.symm, heq.2.symm⟩]
  · intro u' start'
    rw [outstanding_erase hx]
    have hlimit := h.limit u' start'
    split
    · omega
    · exact hlimit
  · intro y hy
    show y ∈ g.held.erase x ↔ _
    rw [hheld]
    exact and_iff_right fun heq => hy (heq ▸ hpid)

/-- **Writing.** -/
theorem Quota.Fits.write {st : Stmt} {r : Except Exc Bool} (h : g.Fits L s)
    (hh : Holding L g (s.shared.staged p) p a) (hok : reserving.ok a (.write st))
    (he : Limited.exec P L p (.write st) ch s = some (r, s')) :
    Quota.Step L p g g s' (reserving.next a (.write st) r) := by
  obtain ⟨hshared, hcounters⟩ := Limited.exec_other (fun _ ho => Op.noConfusion ho)
    (fun _ ho => Op.noConfusion ho) he
  refine h.same hcounters (exec_effect hshared).extends.clock ?_
  have hinserted : (s'.shared.staged p).filterMap Stmt.insertedJob =
      (s.shared.staged p).filterMap Stmt.insertedJob ∨
      (s'.shared.staged p).filterMap Stmt.insertedJob =
        (s.shared.staged p).filterMap Stmt.insertedJob ++ [st].filterMap Stmt.insertedJob := by
    rcases exec_write_cases hshared with ⟨-, hst⟩ | ⟨-, hst⟩
    · rw [hst, List.filterMap_append]
      exact .inr rfl
    · rw [hst]
      exact .inl rfl
  by_cases hjob : ∃ job, st = .insertJob job
  · obtain ⟨job, rfl⟩ := hjob
    obtain ⟨res, rfl⟩ := hok
    refine ⟨hh.1, ?_⟩
    rcases hinserted with heq | heq
    · rw [heq, hh.2]
      exact Nat.zero_le 1
    · rw [heq, hh.2]
      exact Nat.le_refl 1
  · have hnext : reserving.next a (.write st) r = a := by
      cases st with
      | insertJob job => exact absurd ⟨job, rfl⟩ hjob
      | _ => rfl
    have hnone : [st].filterMap Stmt.insertedJob = [] := by
      cases st with
      | insertJob job => exact absurd ⟨job, rfl⟩ hjob
      | _ => rfl
    have hsame : (s'.shared.staged p).filterMap Stmt.insertedJob =
        (s.shared.staged p).filterMap Stmt.insertedJob := by
      rcases hinserted with heq | heq
      · exact heq
      · rw [heq, hnone, List.append_nil]
    rw [hnext]
    cases a with
    | unasked => exact ⟨hh.1, hsame.trans hh.2⟩
    | admitted res => exact ⟨hh.1, hsame.trans hh.2⟩
    | written res => exact ⟨hh.1, hsame ▸ hh.2⟩
    | spent => exact hsame.trans hh
    | refused => trivial

/-- What a process creates, it creates from its reservation. -/
theorem mem_create {answered : Bool} {y : Creation}
    (hy : y ∈ (g.create p staged answered).created) :
    y ∈ g.created ∨ y.grant ∈ g.held ∧ y.grant.pid = p ∧ y.answered = answered ∧
      y.job ∈ staged.filterMap Stmt.insertedJob := by
  rcases List.mem_append.mp hy with hy | hy
  · obtain ⟨x, hx, hy⟩ := List.mem_flatMap.mp hy
    obtain ⟨job, hjob, rfl⟩ := List.mem_map.mp hy
    obtain ⟨hheld, hpid⟩ := List.mem_filter.mp hx
    exact .inr ⟨hheld, eq_of_beq hpid, rfl, hjob⟩
  · exact .inl hy

theorem create_of_nothing {answered : Bool} (h : staged.filterMap Stmt.insertedJob = []) :
    g.create p staged answered = g := by
  have hflat : ((g.held.filter fun x => x.pid == p).flatMap fun x =>
      (staged.filterMap Stmt.insertedJob).map fun job => (⟨x, job, answered⟩ : Creation)) = [] := by
    rw [h]
    exact List.flatMap_eq_nil_iff.mpr fun _ _ => rfl
  unfold Quota.create
  rw [hflat, List.nil_append]

/-- A commit that took effect and raised: there may be one more job, and the reservation is as it
was. -/
theorem Quota.Fits.create_unanswered (h : g.Fits L s) : (g.create p staged false).Fits L s := by
  have hsame : (g.create p staged false).created.filter Creation.answered =
      g.created.filter Creation.answered := by
    have hnone : (((g.held.filter fun x => x.pid == p).flatMap fun x =>
        (staged.filterMap Stmt.insertedJob).map fun job => (⟨x, job, false⟩ : Creation)).filter
          Creation.answered) = [] := by
      refine List.filter_eq_nil_iff.mpr fun y hy => ?_
      obtain ⟨x, -, hy⟩ := List.mem_flatMap.mp hy
      obtain ⟨job, -, rfl⟩ := List.mem_map.mp hy
      exact Bool.false_ne_true
    show List.filter Creation.answered (_ ++ g.created) = _
    rw [List.filter_append, hnone, List.nil_append]
  refine ⟨h.pids, fun y hy hans => ?_, ?_, h.metered, h.limit⟩
  · rcases mem_create hy with hy | ⟨hheld, -, -⟩
    · exact h.held y hy hans
    · exact hheld
  · rw [hsame]
    exact h.created

/-- The grants of one process. -/
theorem length_held_le (h : (g.held.map Grant.pid).Nodup) :
    (g.held.filter fun x => x.pid == p).length ≤ 1 := by
  have hcount := List.nodup_iff_count_le_one.mp h p
  rw [List.count, List.countP_map] at hcount
  rw [← List.countP_eq_length_filter]
  exact hcount

/-- A commit that was answered: there may be one more job, and there was none before. -/
theorem Quota.Fits.create_answered (h : g.Fits L s)
    (hno : ∀ x ∈ g.created, x.answered = true → x.grant.pid ≠ p)
    (hone : (staged.filterMap Stmt.insertedJob).length ≤ 1) :
    (g.create p staged true).Fits L s := by
  refine ⟨h.pids, fun y hy hans => ?_, ?_, h.metered, h.limit⟩
  · rcases mem_create hy with hy | ⟨hheld, -, -⟩
    · exact h.held y hy hans
    · exact hheld
  · have hheld := length_held_le (p := p) h.pids
    have hfresh : ∀ x ∈ g.held.filter (fun x => x.pid == p), ∀ y ∈ g.created, y.answered = true →
        y.grant.pid ≠ x.pid := fun x hx y hy hans heq =>
      hno y hy hans (heq.trans (eq_of_beq (List.mem_filter.mp hx).2))
    unfold Quota.create
    generalize g.held.filter (fun x => x.pid == p) = grants at hheld hfresh ⊢
    generalize staged.filterMap Stmt.insertedJob = jobs at hone ⊢
    -- one reservation, and one job at most
    cases grants with
    | nil => exact h.created
    | cons x grants =>
      obtain rfl := List.eq_nil_of_length_eq_zero (Nat.le_zero.mp (Nat.le_of_succ_le_succ hheld))
      cases jobs with
      | nil => exact h.created
      | cons job jobs =>
        obtain rfl := List.eq_nil_of_length_eq_zero (Nat.le_zero.mp (Nat.le_of_succ_le_succ hone))
        show (x.pid :: (g.created.filter Creation.answered).map fun y => y.grant.pid).Nodup
        rw [List.nodup_cons]
        refine ⟨fun hmem => ?_, h.created⟩
        obtain ⟨y, hy, heq⟩ := List.mem_map.mp hmem
        obtain ⟨hy, hans⟩ := List.mem_filter.mp hy
        exact hfresh x List.mem_cons_self y hy hans heq

theorem Holding.create_unanswered (h : Holding L g staged' q a) :
    Holding L (g.create p staged false) staged' q a := by
  have howns : ∀ {r}, Owns L g q r → Owns L (g.create p staged false) q r := fun hr =>
    ⟨hr.1, fun y hy hans => by
      rcases mem_create hy with hy | ⟨-, -, hfalse, -⟩
      · exact hr.2 y hy hans
      · rw [hfalse] at hans
        cases hans⟩
  cases a with
  | unasked => exact h
  | admitted r => exact ⟨howns h.1, h.2⟩
  | written r => exact ⟨howns h.1, h.2⟩
  | spent => exact h
  | refused => trivial

/-- **Committing.** -/
theorem Quota.Fits.commit {r : Except Exc Unit} (h : g.Fits L s)
    (hh : Holding L g (s.shared.staged p) p a)
    (hok : reserving.ok a .commit) (he : Limited.exec P L p .commit ch s = some (r, s')) :
    Quota.Step L p g (g.call L p (s.shared.staged p) ch .commit r) s'
    (reserving.next a .commit r) := by
  obtain ⟨hshared, hcounters⟩ := Limited.exec_other (fun _ ho => Op.noConfusion ho)
    (fun _ ho => Op.noConfusion ho) he
  have hclock := (exec_effect hshared).extends.clock
  have hlater := h.later hcounters hclock
  have hothers : ∀ answered, ∀ y ∈ (g.create p (s.shared.staged p) answered).created,
    y.grant.pid ≠ p →
      y ∈ g.created := fun answered y hy hne => (mem_create hy).resolve_right fun hnew =>
      hne hnew.2.1
  cases r with
  | error e =>
    have hst : s'.shared.staged p = s.shared.staged p ∨ s'.shared.staged p = [] := by
      rcases (exec_effect hshared).staged_cases with hst | hst | ⟨st, ho, -⟩
      · exact .inl hst
      · exact .inr hst
      · cases ho
    have hcall : g.call L p (s.shared.staged p) ch .commit (.error e) = g ∨
        g.call L p (s.shared.staged p) ch .commit (.error e) = g.create p
        (s.shared.staged p) false := by
      cases ch with
      | failsAfter text => exact .inr rfl
      | _ => exact .inl rfl
    rcases hcall with hcall | hcall
    · rw [hcall]
      exact h.same hcounters hclock (hh.shrink hst)
    · rw [hcall]
      exact ⟨hlater.create_unanswered, (hh.shrink hst).create_unanswered, fun _ _ =>
        Iff.rfl, hothers false⟩
  | ok done =>
    have hempty := exec_commit_ok hshared
    have hnothing : (s.shared.staged p).filterMap Stmt.insertedJob = [] →
        Quota.Step L p g (g.create p (s.shared.staged p) true) s' a := fun hnone => by
      rw [create_of_nothing hnone]
      exact h.same hcounters hclock (hh.shrink (.inr hempty))
    cases a with
    | unasked => exact hnothing hh.2
    | admitted res => exact hnothing hh.2
    | spent => exact hnothing hh
    | refused => exact absurd rfl hok
    | written res =>
      refine ⟨hlater.create_answered hh.1.2 hh.2, ?_, fun _ _ => Iff.rfl, hothers true⟩
      show List.filterMap Stmt.insertedJob (s'.shared.staged p) = []
      rw [hempty]
      rfl

/-- **One call.** -/
theorem Quota.Fits.own {r : Except Exc o.Ret} (h : g.Fits L s)
    (hh : Holding L g (s.shared.staged p) p a)
    (hok : reserving.ok a o) (he : Limited.exec P L p o ch s = some (r, s')) :
    Quota.Step L p g (g.call L p (s.shared.staged p) ch o r) s' (reserving.next a o r) := by
  have hplain : (∀ u, o ≠ .reserve u) → (∀ res, o ≠ .releaseReservation res) →
    (∀ st, o ≠ .write st) →
      Quota.Step L p g g s' a := by
    intro hreserve hrelease hwrite
    obtain ⟨hshared, hcounters⟩ := Limited.exec_other hreserve hrelease he
    refine h.same hcounters (exec_effect hshared).extends.clock (hh.shrink ?_)
    rcases (exec_effect hshared).staged_cases with hst | hst | ⟨st, ho, -⟩
    · exact .inl hst
    · exact .inr hst
    · exact absurd ho (hwrite st)
  cases o with
  | reserve u =>
    have ha : a = .unasked := hok
    subst ha
    exact h.reserve hh he
  | releaseReservation res =>
    refine h.release ?_ he
    rcases hok with rfl | rfl
    · exact hh.1
    · exact hh.1
  | write st => exact h.write hh hok he
  | commit => exact h.commit hh hok he
  | _ =>
    exact hplain (fun _ ho => Op.noConfusion ho) (fun _ ho => Op.noConfusion ho) fun _ ho =>
      Op.noConfusion ho

end Step

/-- The notes fit the counters, and each process stands where the notes say. -/
structure Admission {P : Params} {L : RedisCreateJobRateLimiter} (w : World (limited P L))
    (σ : Pid → Allowance) (g : Quota) : Prop where
  follows : reserving.Follows (fun _ => True) w σ
  fits : g.Fits L w.shared
  holding : ∀ p c o k, w.procs p = some (c, .call o k) →
    Holding L g (w.shared.shared.staged p) p (σ p)
  unborn : ∀ p, w.procs p = none → ∀ x ∈ g.held, x.pid ≠ p

section Run

variable {P : Params} {L : RedisCreateJobRateLimiter} {w w' : World (limited P L)}
  {σ : Pid → Allowance} {g : Quota} {mv : Move (limited P L)}

theorem quota_run {p : Pid} {ch : Choice} {c : Call} {o : Op} {k : Except Exc o.Ret → Code Outcome}
    {r : Except Exc o.Ret} {s : Limited} (hp : w.procs p = some (c, .call o k))
    (he : Limited.exec P L p o ch w.shared = some (r, s)) :
    quota w (.run p ch) w' g = g.call L p (w.shared.shared.staged p) ch o r := by
  simp only [quota, hp, he]

/-- With Redis working, a reserve that does not raise has a reservation. -/
theorem reserving_may {p : Pid} {ch : Choice} {o : Op} {r : Except Exc o.Ret} {s s' : Limited}
    {a : Allowance} (he : Limited.exec P L p o ch s = some (r, s')) : reserving.may a o r := by
  cases o with
  | reserve u =>
    obtain ⟨now, -, -, -, -, -, rfl⟩ := Limited.exec_reserve he
    split
    · trivial
    · trivial
  | _ => trivial

theorem Admission.step (h : Admission w σ g) (hs : (limited P L).step mv w = some w') :
    Admission w' (reserving.track .unasked w mv w' σ) (quota w mv w' g) := by
  have hfollows : reserving.Follows (fun _ => True) w' (reserving.track .unasked w mv w' σ) :=
    h.follows.step (fun c _ => Call.prog_reserves P c) hs
      fun p ch c o k r s _ hp _ he => reserving_may he
  rcases Machine.step_cases hs with ⟨p, c, s, rfl, hp, hst, rfl⟩ |
    ⟨p, ch, c, o, k, r, s, rfl, hp, he, rfl⟩ |
    ⟨p, c, prog, rfl, hp, rfl⟩ | ⟨e, s, rfl, he, rfl⟩
  · obtain ⟨x, hx, rfl⟩ := Option.map_eq_some_iff.mp hst
    refine ⟨hfollows, h.fits.later rfl (by rw [start_core hx]), fun q c' o' k' hq =>
      ?_, fun q hq => ?_⟩
    · by_cases hqp : q = p
      · -- a process begins with nothing
        subst hqp
        simp only [Discipline.track, Function.update_self]
        refine ⟨h.unborn q hp, ?_⟩
        show List.filterMap Stmt.insertedJob (x.staged q) = []
        rw [start_staged hx]
        rfl
      · simp only [Discipline.track, Function.update_of_ne hqp] at hq ⊢
        show Holding L g (x.staged q) q (σ q)
        rw [start_staged_other hx hqp]
        exact h.holding q c' o' k' hq
    · exact h.unborn q (Machine.step_procs_none hs hq).1
  · have hown := h.fits.own (h.holding p c o k hp) (h.follows.ok hp trivial) he
    have hnotes : quota w (.run p ch) ⟨s, Function.update w.procs p (some (c, k r))⟩ g = _ :=
      quota_run hp he
    refine ⟨hfollows, ?_, fun q c' o' k' hq => ?_, fun q hq x hx => ?_⟩
    · rw [hnotes]
      exact hown.fits
    · rw [hnotes]
      by_cases hqp : q = p
      · subst hqp
        rw [Discipline.track_run hp he, Function.update_self]
        exact hown.holding
      · rw [Discipline.track_run hp he, Function.update_of_ne hqp]
        simp only [Function.update_of_ne hqp] at hq
        have hother := Holding.other (h.holding q c' o' k' hq)
          (fun x hx => hown.held x fun heq => hqp (hx.symm.trans heq))
          (fun x hx hpid => hown.created x hx fun heq => hqp (hpid.symm.trans heq))
        rw [show s.shared.staged q = w.shared.shared.staged q from Limited.exec_staged he hqp]
        exact hother
    · rw [hnotes] at hx
      obtain ⟨hnone, -⟩ := Machine.step_procs_none hs hq
      intro hpid
      have hqp : q ≠ p := fun heq => by
        rw [heq, hp] at hnone
        cases hnone
      exact h.unborn q hnone x ((hown.held x fun heq => hqp (hpid.symm.trans heq)).mp hx) hpid
  · -- the reservation of a process that dies is never released
    refine ⟨hfollows, h.fits.later rfl (le_refl _), fun q c' o' k' hq => ?_, fun q hq => ?_⟩
    · by_cases hqp : q = p
      · subst hqp
        simp only [Function.update_self, Option.some.injEq, Prod.mk.injEq, reduceCtorEq,
          and_false] at hq
      · simp only [Discipline.track, Function.update_of_ne hqp] at hq ⊢
        show Holding L g ((w.shared.shared.release p).staged q) q (σ q)
        rw [Shared.staged_release_of_ne hqp]
        exact h.holding q c' o' k' hq
    · exact h.unborn q (Machine.step_procs_none hs hq).1
  · obtain ⟨x, hx, rfl⟩ := Option.map_eq_some_iff.mp he
    obtain ⟨c', hc', rfl⟩ := Option.map_eq_some_iff.mp hx
    exact ⟨hfollows, h.fits.later rfl (Core.env_clock hc'), h.holding, h.unborn⟩

theorem Admission.init : Admission (World.initLimited P L) (fun _ => .unasked) {} where
  follows := fun _ _ _ hp => by cases hp
  fits := by
    refine ⟨List.nodup_nil, fun _ hx => absurd hx List.not_mem_nil, List.nodup_nil, ?_, fun _ _ =>
      Nat.zero_le _⟩
    exact ⟨fun _ _ _ => rfl, fun _ _ _ he => by cases he⟩
  holding := fun _ _ _ _ hp => by cases hp
  unborn := fun _ _ _ hx => absurd hx List.not_mem_nil

/-- Every run is as the notes about it say. -/
theorem Admission.of_observed {ok : World (limited P L) → Move (limited P L) → Prop}
    (h : (limited P L).ObservedBy ok quota (World.initLimited P L) {} w g) :
    ∃ σ, Admission w σ g := by
  obtain ⟨σ, hσ⟩ := h.also (reserving.track .unasked) fun _ => .unasked
  refine ⟨σ, ?_⟩
  exact hσ.invariant (I := fun w x => Admission w x.2 x.1) Admission.init
    fun _ _ _ _ hi _ hs => hi.step hs

/-- Fewer jobs than reservations. -/
theorem Quota.Fits.jobs_le {s : Limited} (h : g.Fits L s) (u : Uuid) (start : Int) :
    (g.jobs u start).length ≤ g.outstanding u start + g.unanswered u start := by
  have hnodup : ((g.created.filter Creation.answered).map Creation.grant).Nodup := by
    refine List.Nodup.of_map Grant.pid ?_
    rw [List.map_map]
    exact h.created
  have hsub : ((g.created.filter Creation.answered).map Creation.grant).Subperm g.held := by
    refine hnodup.subperm fun x hx => ?_
    obtain ⟨y, hy, rfl⟩ := List.mem_map.mp hx
    exact h.held y (List.mem_of_mem_filter hy) (List.of_mem_filter hy)
  have hcount := hsub.countP_le fun x => x.userId == u && x.windowStart == start
  -- a job is known to its request, or its commit raised
  have hsplit : (g.jobs u start).length =
      (g.creations u start).countP Creation.answered + g.unanswered u start := by
    rw [Quota.jobs, List.length_map, List.length_eq_countP_add_countP Creation.answered]
    refine congrArg _ (List.countP_congr fun x _ => ?_)
    simp
  have hanswered : (g.creations u start).countP Creation.answered =
      ((g.created.filter Creation.answered).map Creation.grant).countP
        fun x => x.userId == u && x.windowStart == start := by
    rw [List.countP_map, Quota.creations, List.countP_filter, List.countP_filter]
    refine List.countP_congr fun x _ => ?_
    simp [and_comm]
  rw [hsplit, hanswered]
  exact Nat.add_le_add_right hcount _

/-- **A window admits no more than its limit.** However the requests interleave, die and fail, those
admitted in a window and not released since are within the limit. So are the jobs they created, but
for those whose commit took effect and raised: their reservation is released. -/
theorem rate_limit_respected {ok : World (limited P L) → Move (limited P L) → Prop}
    (h : (limited P L).ObservedBy ok quota (World.initLimited P L) {} w g) (u : Uuid)
    (start : Int) : g.outstanding u start ≤ L.createJobRateLimit ∧
      (g.jobs u start).length ≤ L.createJobRateLimit + g.unanswered u start := by
  obtain ⟨σ, hσ⟩ := Admission.of_observed h
  have hlimit := hσ.fits.limit u start
  exact ⟨hlimit, (hσ.fits.jobs_le u start).trans (Nat.add_le_add_right hlimit _)⟩

/-- A schedule of the system without counters; a reserve reads its clock as `now`. -/
def withLimiter (now : Datetime) : Move (machine P) → Move (limited P L)
  | .start p c => .start p c
  | .run p (.reservation _) => .run p (.time now)
  | .run p c => .run p c
  | .crash p => .crash p
  | .env e => .env e

end Run

/-- One job a minute. -/
def sampleLimiter : RedisCreateJobRateLimiter where
  createJobRateLimit := 1
  createJobRateWindowSeconds := 60
  limit_pos := by decide
  window_pos := by decide
  strUuid := toString
  strUuid_injective := fun _ _ h => toString_nat_injective (congrArg String.toList h)

/-- A request of user 1 comes as far as the limiter. -/
def arriveMoves {P : Params} (p : Pid) (key : String) : List (Move (machine P)) :=
  [.start p (.createJob {} ⟨1, .user⟩ key .success (.obj []))] ++ answers p 2

/-- It comes to the limiter, and is answered. -/
def askMoves {P : Params} (p : Pid) (key : String) : List (Move (machine P)) :=
  arriveMoves p key ++ [.run p (.reservation none)]

/-- Request 0 comes as far as its commit, which takes effect and raises; request 1 creates a job in
its place, and request 2 is rejected. -/
def unansweredMoves {P : Params} : List (Move (machine P)) :=
  [.env (.register 1)] ++ (createMoves 0 1 10 11 "k" .success 0).take 14 ++
    [.run 0 (.failsAfter "connection lost")] ++ answers 0 2 ++ createMoves 1 1 20 21
    "k1" .success 0 ++ askMoves 2 "k2"

theorem unanswered_run : ∃ w g, (limited .default sampleLimiter).ObservedBy (fun _ _ => True) quota
    (World.initLimited .default sampleLimiter) {} w g ∧
    (w.shared.shared.core.db.jobs.rows.map Job.id = [10, 20] ∧ g.jobs 1 0 = [20, 10]) ∧
    g.unanswered 1 0 = 1 ∧ g.rejections 1 0 = 1 := by
  have hrun : ((limited .default sampleLimiter).observe quota (unansweredMoves.map (withLimiter 0))
      (World.initLimited .default sampleLimiter) {}).map (fun x =>
        ((x.1.shared.shared.core.db.jobs.rows.map Job.id, x.2.jobs 1 0), x.2.unanswered 1 0,
          x.2.rejections 1 0)) = some (([10, 20], [20, 10]), 1, 1) := by
    decide +kernel
  simp only [Option.map_eq_some_iff, Prod.mk.injEq] at hrun
  obtain ⟨⟨w, g⟩, hw, hjobs, hunanswered, hrejected⟩ := hrun
  exact ⟨w, g, .of_observe (fun _ _ => trivial) hw, hjobs, hunanswered, hrejected⟩

theorem rate_limit_respected_unanswered : ∃ w g,
    (limited .default sampleLimiter).ObservedBy (fun _ _ => True) quota
      (World.initLimited .default sampleLimiter) {} w g ∧
    g.unanswered 1 0 = 1 ∧ g.rejections 1 0 = 1 ∧
    g.outstanding 1 0 ≤ sampleLimiter.createJobRateLimit ∧
    (g.jobs 1 0).length ≤ sampleLimiter.createJobRateLimit + g.unanswered 1 0 := by
  obtain ⟨w, g, hobserved, -, hunanswered, hrejected⟩ := unanswered_run
  exact ⟨w, g, hobserved, hunanswered, hrejected, rate_limit_respected hobserved 1 0⟩

/-- With a limit of one, two jobs of one window are in the database. -/
theorem rate_limit_exceeded : ∃ w g, (limited .default sampleLimiter).ObservedBy
    (fun _ _ => True) quota (World.initLimited .default sampleLimiter) {} w g ∧
    w.shared.shared.core.db.jobs.rows.map Job.id = [10, 20] ∧
    ¬ (g.jobs 1 0).length ≤ sampleLimiter.createJobRateLimit := by
  obtain ⟨w, g, hobserved, ⟨hrows, hjobs⟩, -⟩ := unanswered_run
  refine ⟨w, g, hobserved, hrows, ?_⟩
  rw [hjobs]
  decide

end CloudJob
