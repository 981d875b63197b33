import CloudJob.Safety.RateLimit

/-!
# `Safety/RateQuota.lean` — when a request is turned away

A rejected attempt has been counted all the same, and nobody takes it back. As long as the window
stays full this makes no difference; once a reservation is released, it stands in for one. So a
request is turned away only from a full window, provided that no reservation is released while the
counter of its window is above the limit. -/

set_option autoImplicit false

namespace CloudJob

open Lib

variable {P : Params} {L : RedisCreateJobRateLimiter} {w w' : World (limited P L)} {g : Quota}
  {mv : Move (limited P L)} {σ : Pid → Allowance}

/-- What Redis answers when it is asked for the counter of a window. -/
def counter (w : World (limited P L)) (key : String) : Nat :=
  (w.shared.counters.get (w.shared.shared.core.clock / 1000) key).getD 0

/-- A script of the window may still run. -/
def Open (w : World (limited P L)) (start : Int) : Prop :=
  w.shared.shared.core.clock < 1000000 * L.windowEnd start

/-- A release finds the counter of its window within the limit, if it comes before the end of it. -/
def ReleasesWithin (w : World (limited P L)) (mv : Move (limited P L)) : Prop :=
  ∀ p ch c res k u start, mv = .run p ch → w.procs p = some (c, .call (.releaseReservation res) k) →
    res.key = L.windowKey u start → Open w start → counter w res.key ≤ L.createJobRateLimit

/-- **What turns a request away**: the reservations that are not released, and the attempts that
were rejected before it in its window, make the limit. -/
theorem reserve_rejected_iff (h : Admission w σ g) {p : Pid} {u : Uuid} {now : Datetime}
    {r : Except Exc (Option CreateJobRateLimitReservationDTO)} {s : Limited}
    (he : Limited.exec P L p (.reserve u) (.time now) w.shared = some (r, s)) :
    r = .error .rateLimitExceeded ↔ L.createJobRateLimit ≤
      g.outstanding u (L.windowStartEpoch now) + g.rejections u (L.windowStartEpoch now) := by
  obtain ⟨now', heq, hnow, hle, hlt, -, rfl⟩ := Limited.exec_reserve he
  cases heq
  have hcount := (h.fits.metered.reserve (u := u) hnow hle hlt).1
  split
  · simp only [true_iff]
    omega
  · simp only [reduceCtorEq, false_iff]
    omega

/-- In a window that may still be reserved in, nobody was rejected, or it is full. -/
def Settled (w : World (limited P L)) (g : Quota) : Prop :=
  ∀ u start, Open w start →
    g.rejections u start = 0 ∨ g.outstanding u start = L.createJobRateLimit

/-! ## One step -/

/-- A release takes the reservation of its process off the notes. -/
theorem quota_release (h : Admission w σ g) {p : Pid} {ch : Choice} {c : Call}
    {res : CreateJobRateLimitReservationDTO} {k : Except Exc Unit → Code Outcome}
    (hp : w.procs p = some (c, .call (.releaseReservation res) k))
    (hs : (limited P L).step (.run p ch) w = some w') :
    ∃ x ∈ g.held, x.pid = p ∧ res.key = L.windowKey x.userId x.windowStart ∧
      quota w (.run p ch) w' g = { g with held := g.held.erase x } := by
  have howns : Owns L g p res := by
    have hh := h.holding p c (.releaseReservation res) k hp
    rcases h.follows.ok hp trivial with hq | hq
    · rw [hq] at hh
      exact hh.1
    · rw [hq] at hh
      exact hh.1
  rcases Machine.step_cases hs with ⟨_, _, _, hmv, -⟩ |
    ⟨p', ch', c', o, k', r, s, hmv, hp', he, rfl⟩ |
    ⟨_, _, _, hmv, -⟩ | ⟨_, _, hmv, -⟩
  · cases hmv
  · cases hmv
    rw [hp] at hp'
    cases hp'
    rw [quota_run hp he]
    exact howns.call_release _ ch h.fits.pids r
  · cases hmv
  · cases hmv

/-- What a step does to the notes on the reservations: a reserve, a release, or nothing. -/
theorem quota_cases (h : Admission w σ g) (hs : (limited P L).step mv w = some w') :
    (∃ p c u k now r, mv = .run p (.time now) ∧ w.procs p = some (c, .call (.reserve u) k) ∧
      Limited.exec P L p (.reserve u) (.time now) w.shared = some (r, w'.shared) ∧
      quota w mv w' g = g.call L p (w.shared.shared.staged p) (.time now) (.reserve u) r) ∨
    (∃ p ch c res k, mv = .run p ch ∧ w.procs p = some (c, .call (.releaseReservation res) k) ∧
      ∃ x ∈ g.held, x.pid = p ∧ res.key = L.windowKey x.userId x.windowStart ∧
        quota w mv w' g = { g with held := g.held.erase x }) ∨
    ((quota w mv w' g).held = g.held ∧ (quota w mv w' g).rejected = g.rejected) := by
  rcases Machine.step_cases hs with ⟨p, c, s, rfl, -, -, rfl⟩ |
    ⟨p, ch, c, o, k, r, s, rfl, hp, he, rfl⟩ |
    ⟨p, c, prog, rfl, -, rfl⟩ | ⟨e, s, rfl, -, rfl⟩
  · exact .inr (.inr ⟨rfl, rfl⟩)
  · rw [quota_run hp he]
    cases o with
    | reserve u =>
      obtain ⟨now, rfl, -⟩ := Limited.exec_reserve he
      exact .inl ⟨p, c, u, k, now, r, rfl, hp, he, rfl⟩
    | releaseReservation res =>
      have hreleased := quota_release h hp hs
      rw [quota_run hp he] at hreleased
      exact .inr (.inl ⟨p, ch, c, res, k, rfl, hp, hreleased⟩)
    | commit => exact .inr (.inr (Quota.call_commit ..))
    | _ => exact .inr (.inr ⟨rfl, rfl⟩)
  · exact .inr (.inr ⟨rfl, rfl⟩)
  · exact .inr (.inr ⟨rfl, rfl⟩)

theorem clock_le (hs : (limited P L).step mv w = some w') :
    w.shared.shared.core.clock ≤ w'.shared.shared.core.clock := by
  rcases Machine.step_cases hs with ⟨p, c, s, rfl, -, hst, rfl⟩ |
    ⟨p, ch, c, o, k, r, s, rfl, hp, he, rfl⟩ |
    ⟨p, c, prog, rfl, -, rfl⟩ | ⟨e, s, rfl, he, rfl⟩
  · obtain ⟨x, hx, rfl⟩ := Option.map_eq_some_iff.mp hst
    rw [start_core hx]
  · exact Limited.exec_clock he
  · exact le_refl _
  · obtain ⟨x, hx, rfl⟩ := Option.map_eq_some_iff.mp he
    obtain ⟨c', hc', rfl⟩ := Option.map_eq_some_iff.mp hx
    exact Core.env_clock hc'

theorem counter_eq (h : Admission w σ g) {u : Uuid} {start : Int} (hopen : Open w start) :
    counter w (L.windowKey u start) = g.outstanding u start + g.rejections u start := by
  rw [counter, Expiring.get, h.fits.metered.entry hopen]
  exact h.fits.metered.counts u start hopen

theorem Settled.step (hset : Settled w g) (h : Admission w σ g) (hok : ReleasesWithin w mv)
    (hs : (limited P L).step mv w = some w') : Settled w' (quota w mv w' g) := by
  intro u start hlive
  have hlive' : Open w start := lt_of_le_of_lt (clock_le hs) hlive
  have hbefore := hset u start hlive'
  rcases quota_cases h hs with ⟨p, c, v, k, now, r, rfl, hp, he, hnotes⟩ |
    ⟨p, ch, c, res, k, rfl, hp, x, hx, -, hkey, hnotes⟩ | ⟨hheld, hrejected⟩
  · have hiff := reserve_rejected_iff h he
    obtain ⟨now', heq, -, -, -, -, hr⟩ := Limited.exec_reserve he
    cases heq
    rw [hnotes]
    have hlimit := h.fits.limit u start
    by_cases hwin : u = v ∧ start = L.windowStartEpoch now
    · obtain ⟨rfl, rfl⟩ := hwin
      cases r with
      | error e =>
        -- rejected: the window is full already
        have hfull := hiff.mp (by split at hr <;> cases hr; rfl)
        have hout : g.outstanding u (L.windowStartEpoch now) = L.createJobRateLimit := by
          rcases hbefore with hzero | hfull'
          · omega
          · exact hfull'
        exact .inr hout
      | ok a =>
        have hroom := mt hiff.mpr nofun
        have hzero : g.rejections u (L.windowStartEpoch now) = 0 := by
          rcases hbefore with hzero | hfull
          · exact hzero
          · omega
        exact .inl hzero
    · cases r with
      | error e =>
        have hsame := rejections_cons g u start (v, L.windowStartEpoch now)
        rw [if_neg hwin] at hsame
        exact hbefore.imp_left fun hzero => hsame.trans hzero
      | ok a =>
        have hsame := outstanding_cons g u start ⟨p, v, L.windowStartEpoch now⟩
        rw [if_neg fun hboth => hwin ⟨hboth.1.symm, hboth.2.symm⟩] at hsame
        exact hbefore.imp_right fun hfull => hsame.trans hfull
  · -- a release of a window in which somebody was rejected would find the counter above the limit
    have hwithin := hok p ch c res k _ _ rfl hp hkey
    rw [hnotes]
    show g.rejections u start = 0 ∨ _
    rw [outstanding_erase hx]
    split
    · rename_i hwin
      rw [hkey, hwin.1, hwin.2, counter_eq h hlive'] at hwithin
      have hle := hwithin hlive'
      rcases hbefore with hzero | hfull
      · exact .inl hzero
      · exact .inl (by omega)
    · exact hbefore
  · have hout : (quota w mv w' g).outstanding u start = g.outstanding u start := by
      rw [Quota.outstanding, hheld]
      rfl
    have hrej : (quota w mv w' g).rejections u start = g.rejections u start := by
      rw [Quota.rejections, hrejected]
      rfl
    rw [hout, hrej]
    exact hbefore

/-! ## Along a run -/

/-- The move reserves nothing for the user in the window. -/
def ReservesElsewhere (u : Uuid) (start : Int) (w : World (limited P L))
    (mv : Move (limited P L)) : Prop :=
  ∀ p now c k, mv = .run p (.time now) → w.procs p = some (c, .call (.reserve u) k) →
    L.windowStartEpoch now ≠ start

/-- Without a reserve, there are only fewer. -/
theorem outstanding_le (h : Admission w σ g) {u : Uuid} {start : Int}
    (hno : ReservesElsewhere u start w mv) (hs : (limited P L).step mv w = some w') :
    (quota w mv w' g).outstanding u start ≤ g.outstanding u start := by
  rcases quota_cases h hs with ⟨p, c, v, k, now, r, rfl, hp, he, hnotes⟩ |
    ⟨p, ch, c, res, k, rfl, hp, x, hx, -, hkey, hnotes⟩ | ⟨hheld, -⟩
  · rw [hnotes]
    cases r with
    | error e => exact le_refl _
    | ok a =>
      have hne : ¬ (v = u ∧ L.windowStartEpoch now = start) := fun hboth => by
        obtain ⟨rfl, hstart⟩ := hboth
        exact hno p now c k rfl hp hstart
      have hsame := outstanding_cons g u start ⟨p, v, L.windowStartEpoch now⟩
      rw [if_neg hne] at hsame
      exact le_of_eq hsame
  · rw [hnotes, outstanding_erase hx]
    split
    · exact Nat.sub_le _ 1
    · exact le_refl _
  · rw [Quota.outstanding, hheld]
    exact le_refl _

/-- In a run whose releases are within the limit, the windows are settled. -/
theorem Settled.of_observed (h : (limited P L).ObservedBy ReleasesWithin quota
    (World.initLimited P L) {} w g) : ∃ σ, Admission w σ g ∧ Settled w g := by
  obtain ⟨σ, hσ⟩ := h.also (reserving.track .unasked) fun _ => .unasked
  refine ⟨σ, ?_⟩
  exact hσ.invariant (I := fun w x => Admission w x.2 x.1 ∧ Settled w x.1)
    ⟨Admission.init, fun _ _ _ => .inl rfl⟩
    fun _ _ _ _ hi hok hs => ⟨hi.1.step hs, hi.2.step hi.1 hok hs⟩

/-- Who is turned away found the window full. -/
theorem outstanding_of_rejected
    (h : (limited P L).ObservedBy ReleasesWithin quota (World.initLimited P L) {} w g)
    {p : Pid} {u : Uuid} {now : Datetime} {s : Limited}
    (he : Limited.exec P L p (.reserve u) (.time now) w.shared = some
      (.error .rateLimitExceeded, s)) :
    g.outstanding u (L.windowStartEpoch now) = L.createJobRateLimit := by
  obtain ⟨σ, hadm, hset⟩ := Settled.of_observed h
  obtain ⟨now', heq, hnow, -, hlt, -, -⟩ := Limited.exec_reserve he
  cases heq
  have hfull := (reserve_rejected_iff hadm he).mp rfl
  have hlimit := hadm.fits.limit u (L.windowStartEpoch now)
  rcases hset u _ (clock_lt_windowEnd hnow hlt) with hzero | hout
  · omega
  · exact hout

/-- What a release does to its own window: one reservation fewer, and the rejected attempts stay. -/
theorem release_window (h : Admission w σ g) {p : Pid} {ch : Choice} {c : Call}
    {res : CreateJobRateLimitReservationDTO} {k : Except Exc Unit → Code Outcome}
    {u : Uuid} {start : Int}
    (hp : w.procs p = some (c, .call (.releaseReservation res) k))
    (hkey : res.key = L.windowKey u start) (hs : (limited P L).step (.run p ch) w = some w') :
    (quota w (.run p ch) w' g).outstanding u start + 1 = g.outstanding u start ∧
    (quota w (.run p ch) w' g).rejections u start = g.rejections u start := by
  obtain ⟨x, hx, -, hkey', hnotes⟩ := quota_release h hp hs
  obtain ⟨hu, hst⟩ := RedisCreateJobRateLimiter.windowKey_inj (hkey.symm.trans hkey')
  have hone := one_le_outstanding hx
  rw [← hu, ← hst] at hone
  rw [hnotes]
  refine ⟨?_, rfl⟩
  rw [outstanding_erase hx, if_pos ⟨hu.symm, hst.symm⟩]
  omega

/-- **A released reservation is given out again**, unless its window has turned somebody away. Where
every release finds the counter of its window within the limit, a request is turned away only from a
full window; and after a release, whatever happens until the next request of the same user in the
same window, that request is admitted. A release that finds the counter above the limit leaves room
that nobody gets. -/
theorem quota_returned_within
    (h : (limited P L).ObservedBy ReleasesWithin quota (World.initLimited P L) {} w g) :
    (∀ p u now s,
      Limited.exec P L p (.reserve u) (.time now) w.shared = some (.error .rateLimitExceeded, s) →
      g.outstanding u (L.windowStartEpoch now) = L.createJobRateLimit) ∧
    (∀ p ch c res k w₁ u start, w.procs p = some (c, .call (.releaseReservation res) k) →
      res.key = L.windowKey u start → (limited P L).step (.run p ch) w = some w₁ →
      (ReleasesWithin w (.run p ch) → ∀ w₂ g₂,
        (limited P L).ObservedBy (fun w m => ReleasesWithin w m ∧
          ReservesElsewhere u start w m) quota w₁ (quota w (.run p ch) w₁ g) w₂ g₂ →
        ∀ q now r s, Limited.exec P L q (.reserve u) (.time now) w₂.shared = some (r, s) →
          L.windowStartEpoch now = start → r ≠ .error .rateLimitExceeded) ∧
      (¬ ReleasesWithin w (.run p ch) →
        (quota w (.run p ch) w₁ g).outstanding u start < L.createJobRateLimit ∧
        ∀ q now r s, Limited.exec P L q (.reserve u) (.time now) w₁.shared = some (r, s) →
          L.windowStartEpoch now = start → r = .error .rateLimitExceeded)) := by
  refine ⟨fun p u now s => outstanding_of_rejected h, ?_⟩
  intro p ch c res k w₁ u start hp hkey hs
  obtain ⟨σ, hadm, -⟩ := Settled.of_observed h
  obtain ⟨hout, hrej⟩ := release_window hadm hp hkey hs
  have hlimit := hadm.fits.limit u start
  refine ⟨fun hwithin w₂ g₂ hrun q now r s he hstart hr => ?_, fun hnot => ⟨by omega, ?_⟩⟩
  · have hafter : (limited P L).ObservedBy ReleasesWithin quota (World.initLimited P L) {} w₁
        (quota w (.run p ch) w₁ g) := .tail _ h hwithin hs
    -- nobody takes the room in between
    have hless : g₂.outstanding u start ≤ (quota w (.run p ch) w₁ g).outstanding u start := by
      obtain ⟨σ₁, hadm₁, -⟩ := Settled.of_observed hafter
      obtain ⟨σ₂, hσ₂⟩ := hrun.also (reserving.track .unasked) σ₁
      have hboth := hσ₂.invariant (I := fun w' x => Admission w' x.2 x.1 ∧
        x.1.outstanding u start ≤ (quota w (.run p ch) w₁ g).outstanding u start) ⟨hadm₁, le_refl _⟩
        fun _ _ _ _ hi hok hs => ⟨hi.1.step hs, (outstanding_le hi.1 hok.2 hs).trans hi.2⟩
      exact hboth.2
    rw [hr] at he
    have hfull := outstanding_of_rejected (hafter.trans (hrun.mono fun _ _ hok => hok.1)) he
    rw [hstart] at hfull
    omega
  · intro q now r s he hstart
    -- the counter is above the limit before the release, and so not below it after
    have hover : L.createJobRateLimit < g.outstanding u start + g.rejections u start := by
      by_contra hle
      refine hnot fun p' ch' c' res' k' u' start' hmv hp' hkey' hopen => ?_
      cases hmv
      rw [hp] at hp'
      cases hp'
      obtain ⟨rfl, rfl⟩ := RedisCreateJobRateLimiter.windowKey_inj (hkey.symm.trans hkey')
      rw [hkey, counter_eq hadm hopen]
      exact Nat.le_of_not_lt hle
    rw [reserve_rejected_iff (hadm.step hs) he, hstart, hrej]
    omega

/-- User 1 is admitted once, others come to the limiter, and then the insert of the job fails. -/
def failedCreateMoves (others : List (Move (machine P))) : List (Move (machine P)) :=
  [.env (.register 1)] ++ askMoves 0 "k" ++ others ++
    [.run 0 (.uuid 10), .run 0 (.time 0), .run 0 (.time 0), .run 0 (.fails "database down")]

/-- What a process is about to ask of the limiter. -/
def atLimiter (w : World (limited P L)) (p : Pid) : Option (Uuid ⊕ String) :=
  match w.procs p with
  | some (_, .call (.reserve u) _) => some (.inl u)
  | some (_, .call (.releaseReservation res) _) => some (.inr res.key)
  | _ => none

theorem of_atLimiter_release {p : Pid} {key : String} (h : atLimiter w p = some (.inr key)) :
    ∃ c res k, w.procs p = some (c, .call (.releaseReservation res) k) ∧ res.key = key := by
  unfold atLimiter at h
  split at h
  · cases h
  · rename_i c res k hp
    cases h
    exact ⟨c, res, k, hp, rfl⟩
  · cases h

theorem of_atLimiter_reserve {p : Pid} {u : Uuid} (h : atLimiter w p = some (.inl u)) :
    ∃ c k, w.procs p = some (c, .call (.reserve u) k) := by
  unfold atLimiter at h
  split at h
  · rename_i c v k hp
    cases h
    exact ⟨c, k, hp⟩
  · cases h
  · cases h

/-- No release, for a schedule that is checked move by move. -/
def releasesNothing (w : World (limited P L)) : Move (limited P L) → Bool
  | .run p _ => match w.procs p with
    | some (_, .call (.releaseReservation _) _) => false
    | _ => true
  | _ => true

theorem releasesWithin_of_nothing (w : World (limited P L)) (mv : Move (limited P L))
    (h : releasesNothing w mv = true) : ReleasesWithin w mv := by
  intro p ch c res k u start hmv hp
  rw [hmv] at h
  simp only [releasesNothing, hp] at h
  cases h

/-- Request 1 waits at the limiter when request 0 releases its reservation, and is admitted. -/
theorem quota_returned_within_release : ∃ w₁ : World (limited .default sampleLimiter),
    atLimiter w₁ 1 = some (.inl 1) ∧ ∃ r s,
      Limited.exec .default sampleLimiter 1 (.reserve 1) (.time 0) w₁.shared = some (r, s) ∧
      r ≠ .error .rateLimitExceeded := by
  have hrun : (((limited .default sampleLimiter).observeIf releasesNothing quota
      ((failedCreateMoves (arriveMoves 1 "k2")).map (withLimiter 0))
      (World.initLimited .default sampleLimiter) {}).bind fun x =>
        ((limited .default sampleLimiter).step (.run 0 .answer) x.1).map fun w₁ =>
          (atLimiter x.1 0, counter x.1 "rate:create-job:1:0", atLimiter w₁ 1,
            (Limited.exec .default sampleLimiter 1 (.reserve 1) (.time 0) w₁.shared).isSome)) =
      some (some (.inr "rate:create-job:1:0"), 1, some (.inl 1), true) := by
    decide +kernel
  simp only [Option.bind_eq_some_iff, Option.map_eq_some_iff, Prod.mk.injEq] at hrun
  obtain ⟨⟨w, g⟩, hw, w₁, hs, hrelease, hcounter, hreserve, hsome⟩ := hrun
  obtain ⟨⟨r, s⟩, he⟩ := Option.isSome_iff_exists.mp hsome
  obtain ⟨c, res, k, hp, hkey⟩ := of_atLimiter_release hrelease
  have hreturned := (quota_returned_within (.of_observeIf releasesWithin_of_nothing hw)).2 0
    .answer c res k w₁
    1 0 hp (hkey.trans (by decide +kernel)) hs
  have hwithin : ReleasesWithin w (.run 0 .answer) := by
    intro p ch c' res' k' u start hmv hp' _ _
    cases hmv
    rw [hp] at hp'
    cases hp'
    rw [hkey, hcounter]
    exact Nat.le_refl 1
  exact ⟨w₁, hreserve, r, s, he, hreturned.1 hwithin w₁ _ .refl 1 0 r s he (by decide)⟩

/-- Request 1 is turned away, request 0 releases its reservation, and request 2 is turned away from
an empty window. -/
theorem quota_not_returned : ∃ w g, (limited .default sampleLimiter).ObservedBy
    (fun _ _ => True) quota (World.initLimited .default sampleLimiter) {} w g ∧ ∃ p u now c k s,
      w.procs p = some (c, .call (.reserve u) k) ∧
      Limited.exec .default sampleLimiter p (.reserve u) (.time now) w.shared =
        some (.error .rateLimitExceeded, s) ∧
      g.outstanding u (sampleLimiter.windowStartEpoch now) = 0 ∧
      g.outstanding u (sampleLimiter.windowStartEpoch now) ≠ sampleLimiter.createJobRateLimit := by
  have hrun : ((limited .default sampleLimiter).observe quota
      ((failedCreateMoves (askMoves 1 "k2") ++ answers 0 1 ++
        arriveMoves 2 "k3").map (withLimiter 0)) (World.initLimited .default sampleLimiter) {}).map
        (fun x =>
        (atLimiter x.1 2, (Limited.exec .default sampleLimiter 2 (.reserve 1) (.time 0)
          x.1.shared).map Prod.fst,
          x.2.outstanding 1 0)) =
      some (some (.inl 1), some (.error .rateLimitExceeded), 0) := by
    decide +kernel
  simp only [Option.map_eq_some_iff, Prod.mk.injEq] at hrun
  obtain ⟨⟨w, g⟩, hw, hreserve, ⟨⟨r, s⟩, he, hr⟩, hout⟩ := hrun
  obtain ⟨c, k, hp⟩ := of_atLimiter_reserve hreserve
  have hstart : sampleLimiter.windowStartEpoch 0 = 0 := by decide
  have hr : r = .error .rateLimitExceeded := hr
  rw [hr] at he
  refine ⟨w, g, .of_observe (fun _ _ => trivial) hw, 2, 1, 0, c, k, s, hp, he, ?_, ?_⟩
  · rw [hstart]
    exact hout
  · rw [hstart, show g.outstanding 1 0 = 0 from hout]
    decide

end CloudJob
