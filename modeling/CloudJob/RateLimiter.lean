import CloudJob.Lib.Expiring
import CloudJob.Lib.Text
import CloudJob.Uow

/-!
# `RateLimiter.lean` — `RedisCreateJobRateLimiter`

`app/infrastructure/redis/rate_limiter.py`. `reserve` and `release` are programs over two calls, the
clock and `EVAL` of one of the two scripts; a script runs on the counters as one step, at one time,
which Redis counts in milliseconds. The counters are naturals: no script takes one below zero. -/

set_option autoImplicit false

namespace CloudJob

open Lib

def KEY_EXPIRY_MARGIN_SECONDS : Nat := 5

/-! ## The scripts -/

abbrev Counters := Expiring String Nat

/-- `TTL`, in seconds. -/
def ttl (counters : Counters) (now : Int) (key : String) : Int :=
  match counters.entry now key with
  | none => -2
  | some ⟨_, none⟩ => -1
  | some ⟨_, some expiresAt⟩ => (expiresAt - now + 500) / 1000

/-- `CREATE_JOB_RATE_LIMIT_SCRIPT`: the count and the key's `TTL`. -/
def createJobRateLimitScript (now : Int) (key : String) (expirySeconds : Nat)
    (counters : Counters) : (Nat × Int) × Counters :=
  let (current, counters) := counters.incr now key
  let counters := if current = 1 then counters.expire now key (now + 1000 * (expirySeconds : Int))
    else counters
  ((current, ttl counters now key), counters)

/-- `RELEASE_CREATE_JOB_RATE_LIMIT_SCRIPT`. -/
def releaseCreateJobRateLimitScript (now : Int) (key : String) (counters : Counters) :
    Nat × Counters :=
  match counters.get now key with
  | none => (0, counters)
  | some current => if current ≤ 1 then (0, counters.del key) else counters.decr now key

/-- A script, with its key and its argument. -/
inductive Script where
  | createJobRateLimit (key : String) (expirySeconds : Nat)
  | releaseCreateJobRateLimit (key : String)

@[reducible] def Script.Ret : Script → Type
  | .createJobRateLimit _ _ => Nat × Int
  | .releaseCreateJobRateLimit _ => Nat

/-- Run a script; `now` is in milliseconds. -/
def Script.run (now : Int) : (script : Script) → Counters → script.Ret × Counters
  | .createJobRateLimit key expirySeconds, counters =>
      createJobRateLimitScript now key expirySeconds counters
  | .releaseCreateJobRateLimit key, counters => releaseCreateJobRateLimitScript now key counters

section Run

variable {now : Int} {key k : String} {counters : Counters} {n : Nat} {e : Timed Nat}

/-- The first request of a window creates its counter. -/
theorem createJobRateLimitScript_none (h : counters.entry now key = none) :
    (createJobRateLimitScript now key n counters).1.1 = 1 ∧
    (createJobRateLimitScript now key n counters).2 =
      counters.put key 1 (some (now + 1000 * (n : Int))) := by
  have hincr : counters.incr now key = (1, counters.put key 1 none) := by
    unfold Expiring.incr
    rw [h]
  have hexpire : (counters.incr now key).2.expire now key (now + 1000 * (n : Int)) =
      counters.put key (counters.incr now key).1 (some (now + 1000 * (n : Int))) :=
      Expiring.expire_incr
  rw [hincr] at hexpire
  unfold createJobRateLimitScript
  simp only [hincr, if_true, hexpire, and_self]

/-- A later one adds to it, and leaves its end alone. -/
theorem createJobRateLimitScript_some (h : counters.entry now key = some e) (hpos : 1 ≤ e.value) :
    (createJobRateLimitScript now key n counters).1.1 = e.value + 1 ∧
    (createJobRateLimitScript now key n counters).2 =
      counters.put key (e.value + 1) e.expiresAt := by
  have hincr : counters.incr now key = (e.value + 1,
      counters.put key (e.value + 1) e.expiresAt) := by
    unfold Expiring.incr
    rw [h]
  have hne : ¬ e.value + 1 = 1 := by omega
  unfold createJobRateLimitScript
  simp only [hincr, if_neg hne, and_self]

theorem releaseCreateJobRateLimitScript_none (h : counters.entry now key = none) :
    (releaseCreateJobRateLimitScript now key counters).2 = counters := by
  unfold releaseCreateJobRateLimitScript Expiring.get
  rw [h]
  rfl

theorem releaseCreateJobRateLimitScript_last (h : counters.entry now key = some e)
    (hlast : e.value ≤ 1) :
    (releaseCreateJobRateLimitScript now key counters).2 = counters.del key := by
  unfold releaseCreateJobRateLimitScript Expiring.get
  rw [h]
  simp only [Option.map_some, if_pos hlast]

theorem releaseCreateJobRateLimitScript_some (h : counters.entry now key = some e)
    (hmore : 1 < e.value) : (releaseCreateJobRateLimitScript now key counters).2 =
      counters.put key (e.value - 1) e.expiresAt := by
  unfold releaseCreateJobRateLimitScript Expiring.get
  rw [h]
  simp only [Option.map_some, if_neg (Nat.not_le.mpr hmore)]
  unfold Expiring.decr
  rw [h]

end Run

/-! ## The limiter -/

/-- What `RateLimitExceededError` is made with. -/
inductive LimiterExc where
  | rateLimitExceeded (limit retryAfterSeconds : Nat) (resetEpoch : Int)
  | redis (text : String)
deriving DecidableEq, Repr

/-- The headers of the response. -/
def LimiterExc.headers : LimiterExc → List (String × String)
  | .rateLimitExceeded limit retryAfterSeconds resetEpoch =>
      [("Retry-After", toString retryAfterSeconds), ("X-RateLimit-Limit", toString limit),
        ("X-RateLimit-Remaining", "0"), ("X-RateLimit-Reset", toString resetEpoch)]
  | .redis _ => []

inductive LimiterOp where
  | now
  | eval (script : Script)

@[reducible] def LimiterOp.Ret : LimiterOp → Type
  | .now => Datetime
  | .eval script => script.Ret

@[reducible] def limiterSig : Sig := ⟨LimiterOp, LimiterOp.Ret, LimiterExc⟩

abbrev LimiterCode (α : Type) := Prog limiterSig α

def limiterCall (o : LimiterOp) : LimiterCode o.Ret := Prog.perform (S := limiterSig) o

/-- The settings the limiter reads, each with its `ge=1`, and how a user id is written. -/
structure RedisCreateJobRateLimiter where
  createJobRateLimit : Nat
  createJobRateWindowSeconds : Nat
  limit_pos : 1 ≤ createJobRateLimit
  window_pos : 1 ≤ createJobRateWindowSeconds
  /-- `str(uuid)`. -/
  strUuid : Uuid → String
  strUuid_injective : Function.Injective strUuid

/-- `int(now.timestamp())`. The division is exact; the source divides floats, which for dates some
centuries away may round the last microseconds of a second up to the next. -/
def epochOf (now : Datetime) : Int := now.tdiv 1000000

namespace RedisCreateJobRateLimiter

variable (L : RedisCreateJobRateLimiter)

/-- `window_start_epoch`. -/
def windowStartEpoch (now : Datetime) : Int :=
  epochOf now - epochOf now % (L.createJobRateWindowSeconds : Int)

/-- The key of a window. -/
def windowKey (userId : Uuid) (windowStartEpoch : Int) : String :=
  let user := L.strUuid userId
  s!"rate:create-job:{user}:{windowStartEpoch}"

/-- `_build_window_key`. -/
def buildWindowKey (userId : Uuid) (now : Datetime) : String × Int :=
  (L.windowKey userId (L.windowStartEpoch now),
    L.windowStartEpoch now + (L.createJobRateWindowSeconds : Int))

/-- `reserve`. -/
def reserve (userId : Uuid) : LimiterCode (Option CreateJobRateLimitReservationDTO) := do
  let now ← limiterCall .now
  let (key, resetEpoch) := L.buildWindowKey userId now
  let expirySeconds := L.createJobRateWindowSeconds + KEY_EXPIRY_MARGIN_SECONDS
  let retryAfterSeconds := (max (resetEpoch - epochOf now) 0).toNat
  let rawResult ← Prog.tryCatch
    (do
      let rawResult ← limiterCall (.eval (.createJobRateLimit key expirySeconds))
      return some rawResult)
    fun _ => .ret none
  match rawResult with
  | none => return none
  | some (currentCount, _ttl) =>
      let used := currentCount
      let remaining := L.createJobRateLimit - used
      let reservation : CreateJobRateLimitReservationDTO :=
        { key := key
          limit := L.createJobRateLimit
          used := used
          remaining := remaining
          retryAfterSeconds := retryAfterSeconds
          resetEpoch := resetEpoch }
      if used > L.createJobRateLimit then
        .raise (.rateLimitExceeded reservation.limit reservation.retryAfterSeconds
          reservation.resetEpoch)
      else return some reservation

/-- `release`. -/
def release (reservation : CreateJobRateLimitReservationDTO) : LimiterCode Unit :=
  Prog.tryCatch
    (do
      let _ ← limiterCall (.eval (.releaseCreateJobRateLimit reservation.key))
      return ())
    fun _ => .ret ()

end RedisCreateJobRateLimiter

/-- The counters answer at `clock`; a process that reads its own clock reads `now`. -/
def limiterAnswer (now clock : Datetime) :
    (o : LimiterOp) → Counters → Except LimiterExc o.Ret × Counters
  | .now, counters => (.ok now, counters)
  | .eval script, counters => (.ok (script.run (clock / 1000) counters).1,
      (script.run (clock / 1000) counters).2)

namespace RedisCreateJobRateLimiter

variable (L : RedisCreateJobRateLimiter)

/-- A key is of one user and one window. -/
theorem windowKey_inj {L : RedisCreateJobRateLimiter} {u u' : Uuid} {start start' : Int}
    (h : L.windowKey u start = L.windowKey u' start') : u = u' ∧ start = start' := by
  have htoList : ∀ (u : Uuid) (start : Int), (L.windowKey u start).toList =
      ("rate:create-job:".toList ++ (L.strUuid u).toList) ++ ':' :: (toString start).toList := by
    intro u start
    have hcolon : ":".toList = [':'] := by decide
    have htext : ∀ text : String, toString text = text := fun _ => rfl
    unfold windowKey
    simp only [String.toList_append, List.append_assoc, htext, hcolon, List.singleton_append]
  have hlist := congrArg String.toList h
  rw [htoList, htoList] at hlist
  obtain ⟨huser, hstart⟩ := colon_split_last (colon_notMem_toString_int start)
    (colon_notMem_toString_int start') hlist
  exact ⟨L.strUuid_injective (String.toList_injective (List.append_cancel_left huser)),
    toString_int_injective hstart⟩

/-- What the script of `reserve` does when its clock reads `now`, at `clock`. -/
def reserveResult (userId : Uuid) (now clock : Datetime) (counters : Counters) :
    (Nat × Int) × Counters :=
  createJobRateLimitScript (clock / 1000) (L.windowKey userId (L.windowStartEpoch now))
    (L.createJobRateWindowSeconds + KEY_EXPIRY_MARGIN_SECONDS) counters

/-- The reservation `reserve` makes of a count. -/
def reservationOf (userId : Uuid) (now : Datetime) (used : Nat) :
    CreateJobRateLimitReservationDTO where
  key := L.windowKey userId (L.windowStartEpoch now)
  limit := L.createJobRateLimit
  used := used
  remaining := L.createJobRateLimit - used
  retryAfterSeconds :=
    (max (L.windowStartEpoch now + (L.createJobRateWindowSeconds : Int) - epochOf now) 0).toNat
  resetEpoch := L.windowStartEpoch now + (L.createJobRateWindowSeconds : Int)

/-- Where Redis works, `reserve` counts itself and then compares. -/
theorem reserve_eval (userId : Uuid) (now clock : Datetime) (counters : Counters) :
    (L.reserve userId).eval (limiterAnswer now clock) counters =
      (if (L.reserveResult userId now clock counters).1.1 > L.createJobRateLimit then
        .error (.rateLimitExceeded L.createJobRateLimit
          (L.reservationOf userId now 0).retryAfterSeconds
          (L.reservationOf userId now 0).resetEpoch)
      else .ok (some (L.reservationOf userId now
        (L.reserveResult userId now clock counters).1.1)),
        (L.reserveResult userId now clock counters).2) := by
  show Prog.eval (S := limiterSig) (limiterAnswer now clock) (if (L.reserveResult userId now clock
    counters).1.1 > L.createJobRateLimit then _ else _) _ = _
  split
  · rfl
  · rfl

end RedisCreateJobRateLimiter

end CloudJob
