import CloudJob.RateLimiter
import CloudJob.System

/-!
# `Limited.lean` — the system with its counters

The system of `System.lean` with the counters behind its rate limiter: `reserve` and `release` do
what the limiter does with them. A reserve is taken at the moment its script runs; its clock was
read at some time before, by less than the margin. -/

set_option autoImplicit false

namespace CloudJob

open Lib

structure Limited where
  shared : Shared
  counters : Counters

def LimiterExc.toExc : LimiterExc → Exc
  | .rateLimitExceeded _ _ _ => .rateLimitExceeded
  | .redis text => .redis text

/-- One call. The clock begins at zero, so no reading is below. -/
def Limited.exec (P : Params) (L : RedisCreateJobRateLimiter) (p : Pid) (o : Op) (c : Choice)
    (s : Limited) : Option (Except Exc o.Ret × Limited) :=
  match o, c with
  | .reserve userId, .time now =>
      if 0 ≤ now ∧ now ≤ s.shared.core.clock ∧
          s.shared.core.clock < now + seconds KEY_EXPIRY_MARGIN_SECONDS then
        let result := (L.reserve userId).eval (limiterAnswer now s.shared.core.clock) s.counters
        some (result.1.mapError LimiterExc.toExc, ⟨s.shared, result.2⟩)
      else none
  | .reserve _, _ => none
  | .releaseReservation reservation, .answer =>
      let result := (RedisCreateJobRateLimiter.release reservation).eval
        (limiterAnswer s.shared.core.clock s.shared.core.clock) s.counters
      some (result.1.mapError LimiterExc.toExc, ⟨s.shared, result.2⟩)
  | .releaseReservation _, _ => none
  | o, c => (s.shared.exec P.reads p o c).map fun x => (x.1, ⟨x.2, s.counters⟩)

@[reducible] def limited (P : Params) (L : RedisCreateJobRateLimiter) : Machine sig where
  State := Limited
  Choice := Choice
  Env := EnvAct
  Call := Call
  Out := Outcome
  exec := Limited.exec P L
  env e s := (s.shared.env e).map fun x => ⟨x, s.counters⟩
  crash p s := ⟨s.shared.release p, s.counters⟩
  crashed := .crashed
  prog := Call.prog P
  start p c s := (s.shared.start P p c).map fun x => ⟨x, s.counters⟩

def World.initLimited (P : Params) (L : RedisCreateJobRateLimiter) : World (limited P L) :=
  ⟨⟨Shared.init, fun _ => none⟩, fun _ => none⟩

end CloudJob
