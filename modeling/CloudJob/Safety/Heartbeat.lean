import CloudJob.Heartbeat
import CloudJob.Safety.Streaming

/-!
# `Safety/Heartbeat.lean` — what a heartbeat does to a stream

An await of the generator that reaches `SSE_HEARTBEAT_SECONDS` is its last one, so the stream
forwards what comes in time and ends with the first heartbeat. -/

set_option autoImplicit false

namespace CloudJob

open Lib

namespace Timeline

/-- The first `n` events, and none after a terminal one. -/
def events (t : Timeline) : Nat → List JobStatusEvent
  | 0 => []
  | n + 1 => match t 0 with
    | none => []
    | some (_, ev) => if ev.status.isTerminal then [ev] else ev :: events t.later n

/-- As long as no terminal event has come, the next event comes before the heartbeat is due. -/
def Timely (t : Timeline) : Prop :=
  ∀ n, (∀ k < n, ∃ idle ev, t k = some (idle, ev) ∧ ev.status.isTerminal = false) →
    ∃ idle ev, t n = some (idle, ev) ∧ idle < microseconds SSE_HEARTBEAT_SECONDS

end Timeline

/-! ## One await -/

theorem getMessage_of_lt {left idle : Nat} {t : Timeline} {ev : JobStatusEvent}
    (h : t 0 = some (idle, ev)) (hlt : idle < min left (microseconds GET_MESSAGE_TIMEOUT_SECONDS)) :
    getMessage left t = (.message ev, t.later) := by
  have hf : (t 0).filter (fun x => x.1 < min left (microseconds GET_MESSAGE_TIMEOUT_SECONDS)) =
      some (idle, ev) := by
    rw [h, Option.filter_some, if_pos (decide_eq_true hlt)]
  rw [getMessage, hf]

/-- Nothing comes before the poll ends. -/
def Timeline.SilentFor (t : Timeline) (left : Nat) : Prop :=
  ∀ idle ev, t 0 = some (idle, ev) → left ≤ idle

theorem getMessage_of_silent {left : Nat} {t : Timeline}
    (h : t.SilentFor (min left (microseconds GET_MESSAGE_TIMEOUT_SECONDS))) :
    getMessage left t =
      if left ≤ microseconds GET_MESSAGE_TIMEOUT_SECONDS then
        (.raised .cancelledError, t.elapse left)
      else (.nothing, t.elapse (microseconds GET_MESSAGE_TIMEOUT_SECONDS)) := by
  have hf : (t 0).filter (fun x => x.1 < min left (microseconds GET_MESSAGE_TIMEOUT_SECONDS)) =
      none := by
    refine Option.filter_eq_none_iff.mpr fun x hx hlt => ?_
    have hle := h x.1 x.2 hx
    exact absurd (of_decide_eq_true hlt) (Nat.not_lt.mpr hle)
  rw [getMessage, hf]

theorem iterate_eq (left : Nat) (t : Timeline) : iterate left t = match getMessage left t with
    | (.message ev, t') => (.yields ev, t')
    | (.raised e, t') => (e.exit, t')
    | (.nothing, t') => iterate (left - microseconds GET_MESSAGE_TIMEOUT_SECONDS) t' := by
  rw [iterate]
  split <;> rename_i hget <;> rw [hget]

/-- An event that comes in time is yielded, after however many polls. -/
theorem iterate_of_lt {left idle : Nat} {t : Timeline} {ev : JobStatusEvent}
    (h : t 0 = some (idle, ev)) (hlt : idle < left) : iterate left t = (.yields ev, t.later) := by
  induction left using Nat.strongRecOn generalizing idle t with
  | ind left ih =>
    rw [iterate_eq]
    by_cases hnow : idle < min left (microseconds GET_MESSAGE_TIMEOUT_SECONDS)
    · rw [getMessage_of_lt h hnow]
    · -- the poll ends first, and a later one is as near as this one was, less its length
      have hsilent : t.SilentFor (min left (microseconds GET_MESSAGE_TIMEOUT_SECONDS)) := by
        intro idle' ev' h'
        rw [h] at h'
        cases h'
        exact Nat.not_lt.mp hnow
      have hpos : 0 < microseconds GET_MESSAGE_TIMEOUT_SECONDS := by decide
      rw [getMessage_of_silent hsilent, if_neg (by omega)]
      have hfirst : t.elapse (microseconds GET_MESSAGE_TIMEOUT_SECONDS) 0 =
          some (idle - microseconds GET_MESSAGE_TIMEOUT_SECONDS, ev) := by
        rw [Timeline.elapse, h, Option.map_some]
      exact ih _ (by omega) hfirst (by omega)

/-- Where nothing comes in time, `CancelledError` leaves the generator. -/
theorem iterate_of_silent {left : Nat} {t : Timeline} (h : t.SilentFor left) :
    ∃ t', iterate left t = (.cancelled, t') := by
  induction left using Nat.strongRecOn generalizing t with
  | ind left ih =>
    have hpos : 0 < microseconds GET_MESSAGE_TIMEOUT_SECONDS := by decide
    have hsilent : t.SilentFor (min left (microseconds GET_MESSAGE_TIMEOUT_SECONDS)) :=
      fun idle ev h0 => (Nat.min_le_left _ _).trans (h idle ev h0)
    rw [iterate_eq, getMessage_of_silent hsilent]
    by_cases hlast : left ≤ microseconds GET_MESSAGE_TIMEOUT_SECONDS
    · rw [if_pos hlast]
      exact ⟨_, rfl⟩
    · rw [if_neg hlast]
      refine ih _ (by omega) fun idle ev h0 => ?_
      rw [Timeline.elapse, Option.map_eq_some_iff] at h0
      obtain ⟨⟨idle', ev'⟩, h0, heq⟩ := h0
      rw [← (Prod.mk.inj heq).1]
      exact Nat.sub_le_sub_right (h idle' ev' h0) _

/-! ## Rounds -/

variable {job : JobPublicDTO} {t₀ t : Timeline} {s : SseConnection}

namespace SseConnection

/-- A round of the loop that begins. -/
def ask (s : SseConnection) : SseConnection := { s with asked := s.asked + 1 }

/-- An event is received and sent to the client. -/
def receive (ev : JobStatusEvent) (it : EventIterator) (s : SseConnection) : SseConnection :=
  { s with iterator := it, emitted := s.emitted ++ [.status ev] }

/-- The generator is gone; the client is sent a comment. -/
def keepAlive (it : EventIterator) (s : SseConnection) : SseConnection :=
  { s with iterator := it, emitted := s.emitted ++ [.keepAlive] }

@[simp] theorem ask_forwarded (s : SseConnection) : s.ask.forwarded = s.forwarded := rfl

@[simp] theorem ask_asked (s : SseConnection) : s.ask.asked = s.asked + 1 := rfl

@[simp] theorem receive_forwarded (ev : JobStatusEvent) (it : EventIterator) (s : SseConnection) :
    (s.receive ev it).forwarded = s.forwarded ++ [ev] := List.filterMap_append

@[simp] theorem receive_asked (ev : JobStatusEvent) (it : EventIterator) (s : SseConnection) :
    (s.receive ev it).asked = s.asked := rfl

@[simp] theorem keepAlive_forwarded (it : EventIterator) (s : SseConnection) :
    (s.keepAlive it).forwarded = s.forwarded :=
  List.filterMap_append.trans (List.append_nil _)

@[simp] theorem keepAlive_asked (it : EventIterator) (s : SseConnection) :
    (s.keepAlive it).asked = s.asked := rfl

end SseConnection

/-- A loop that has its generator forwards an event that comes in time. -/
theorem answer_forward_of_lt {idle : Nat} {ev : JobStatusEvent} (hit : s.iterator = ⟨false, t⟩)
    (h : t 0 = some (idle, ev)) (hlt : idle < microseconds SSE_HEARTBEAT_SECONDS) :
    SseConnection.answer job t₀ .forward s = (.ok ev, s.receive ev ⟨false, t.later⟩) := by
  simp only [SseConnection.answer, EventIterator.waitForNext, hit, iterate_of_lt h hlt]
  rfl

theorem answer_forward_of_silent (hit : s.iterator = ⟨false, t⟩)
    (h : t.SilentFor (microseconds SSE_HEARTBEAT_SECONDS)) :
    ∃ t', SseConnection.answer job t₀ .forward s =
      (.error .timeoutError, { s with iterator := ⟨true, t'⟩ }) := by
  obtain ⟨t', ht'⟩ := iterate_of_silent h
  refine ⟨t', ?_⟩
  simp only [SseConnection.answer, EventIterator.waitForNext, hit, ht']
  rfl

theorem answer_forward_of_exhausted (hit : s.iterator = ⟨true, t⟩) :
    SseConnection.answer job t₀ .forward s = (.error .stopAsyncIteration, s) := by
  simp only [SseConnection.answer, EventIterator.waitForNext, hit]
  cases s
  cases hit
  rfl

/-- The stream after at most `rounds` rounds of its loop. -/
def SseConnection.after (job : JobPublicDTO) (t₀ : Timeline) (rounds : Nat) (s : SseConnection) :
    SseConnection := ((forwardEvents rounds).eval (SseConnection.answer job t₀) s).2

section Round

variable (rounds : Nat) {s' : SseConnection}

/-- A round asks whether the client is there, and waits for one event. -/
theorem after_succ : s.after job t₀ (rounds + 1) = (((streamCall .forward).attempt.bind fun r =>
    match r with
    | .ok event => if event.status.isTerminal then .ret () else forwardEvents rounds
    | .error .timeoutError => (streamCall (.emit .keepAlive)).bind fun _ => forwardEvents rounds
    | .error .jobStatusPubSubError => streamCall (.emit (.error "reconnect"))
    | .error .stopAsyncIteration => .ret ()
    | .error e => .raise e).eval (SseConnection.answer job t₀) s.ask).2 := by
  rw [SseConnection.after, forwardEvents, Prog.bind_eq, Prog.eval_bind, streamCall,
    Prog.eval_perform]
  rfl

theorem after_of_event {ev : JobStatusEvent}
    (h : SseConnection.answer job t₀ .forward s.ask = (.ok ev, s')) :
    s.after job t₀ (rounds + 1) = if ev.status.isTerminal then s' else s'.after job t₀ rounds := by
  rw [after_succ, Prog.eval_bind, Prog.eval_attempt, streamCall, Prog.eval_perform, h]
  dsimp only
  split <;> rfl

theorem after_of_timeout (h : SseConnection.answer job t₀ .forward
    s.ask = (.error .timeoutError, s')) :
    s.after job t₀ (rounds + 1) = (s'.keepAlive s'.iterator).after job t₀ rounds := by
  rw [after_succ, Prog.eval_bind, Prog.eval_attempt, streamCall, Prog.eval_perform, h]
  rfl

theorem after_of_stop
    (h : SseConnection.answer job t₀ .forward s.ask = (.error .stopAsyncIteration, s')) :
    s.after job t₀ (rounds + 1) = s' := by
  rw [after_succ, Prog.eval_bind, Prog.eval_attempt, streamCall, Prog.eval_perform, h]
  rfl

end Round

/-! ## The loop -/

theorem Timeline.Timely.later {idle : Nat} {ev : JobStatusEvent} (h : t.Timely)
    (h0 : t 0 = some (idle, ev)) (hopen : ev.status.isTerminal = false) : t.later.Timely := by
  intro n hn
  refine h (n + 1) fun k hk => ?_
  cases k with
  | zero => exact ⟨idle, ev, h0, hopen⟩
  | succ k => exact hn k (Nat.lt_of_succ_lt_succ hk)

theorem Timeline.events_succ {idle : Nat} {ev : JobStatusEvent}
    (h0 : t 0 = some (idle, ev)) (n : Nat) :
    t.events (n + 1) = if ev.status.isTerminal then [ev] else ev :: t.later.events n := by
  rw [Timeline.events, h0]

/-- Where every event comes in time, each round forwards one, up to the terminal one. -/
theorem forwardEvents_timely (job : JobPublicDTO) (t₀ : Timeline) (rounds : Nat) (h : t.Timely)
    (hit : s.iterator = ⟨false, t⟩) :
    (s.after job t₀ rounds).forwarded = s.forwarded ++ t.events rounds ∧
    ((s.after job t₀ rounds).asked < s.asked + rounds →
      ∃ ev ∈ t.events rounds, ev.status.isTerminal = true) := by
  induction rounds generalizing t s with
  | zero => exact ⟨(List.append_nil _).symm, fun hlt => absurd hlt (Nat.lt_irrefl _)⟩
  | succ rounds ih =>
    obtain ⟨idle, ev, h0, hlt⟩ := h 0 fun k hk => absurd hk (Nat.not_lt_zero k)
    rw [after_of_event rounds (answer_forward_of_lt (s := s.ask) hit h0 hlt),
      Timeline.events_succ h0]
    cases hend : ev.status.isTerminal with
    | true =>
      rw [if_pos rfl, if_pos rfl]
      exact ⟨SseConnection.receive_forwarded .., fun _ => ⟨ev, List.mem_singleton_self ev, hend⟩⟩
    | false =>
      rw [if_neg Bool.false_ne_true, if_neg Bool.false_ne_true]
      obtain ⟨hforwarded, hasked⟩ := ih (s := s.ask.receive ev ⟨false, t.later⟩)
        (h.later h0 hend) rfl
      rw [SseConnection.receive_forwarded, SseConnection.ask_forwarded] at hforwarded
      rw [SseConnection.receive_asked, SseConnection.ask_asked] at hasked
      refine ⟨by rw [hforwarded, List.append_assoc, List.singleton_append], fun hlt' => ?_⟩
      obtain ⟨ev', hm, ht⟩ := hasked (by omega)
      exact ⟨ev', List.mem_cons_of_mem _ hm, ht⟩

/-- A heartbeat that falls due is the end: in the next round the loop returns. -/
theorem forwardEvents_silent (job : JobPublicDTO) (t₀ : Timeline)
    (h : t.SilentFor (microseconds SSE_HEARTBEAT_SECONDS)) (hit : s.iterator = ⟨false, t⟩) :
    (s.after job t₀ 3).asked < s.asked + 3 ∧
      (s.after job t₀ 3).forwarded = s.forwarded := by
  have hfirst : ∃ t', SseConnection.answer job t₀ .forward s.ask =
      (.error .timeoutError, { s.ask with iterator := ⟨true, t'⟩ }) :=
      answer_forward_of_silent hit h
  obtain ⟨t', hfirst⟩ := hfirst
  rw [after_of_timeout 2 hfirst, after_of_stop 1 (answer_forward_of_exhausted (t := t') rfl)]
  exact ⟨Nat.lt_succ_self _, SseConnection.keepAlive_forwarded ⟨true, t'⟩ s⟩

/-- So a loop in which one falls due before a terminal event returns without one. -/
theorem forwardEvents_late (job : JobPublicDTO) (t₀ : Timeline) (n : Nat)
    (hopen : ∀ k < n, ∃ idle ev, t k = some (idle, ev) ∧ ev.status.isTerminal = false)
    (hlate : ¬ ∃ idle ev, t n = some (idle, ev) ∧ idle < microseconds SSE_HEARTBEAT_SECONDS)
    (hit : s.iterator = ⟨false, t⟩) :
    ∃ rounds l, (s.after job t₀ rounds).asked <
        s.asked + rounds ∧
      (s.after job t₀ rounds).forwarded = s.forwarded ++ l ∧
      ∀ ev ∈ l, ev.status.isTerminal = false := by
  have hnow : ∀ {s : SseConnection} {t : Timeline}, s.iterator = ⟨false, t⟩ →
      t.SilentFor (microseconds SSE_HEARTBEAT_SECONDS) →
      ∃ rounds l, (s.after job t₀ rounds).asked <
          s.asked + rounds ∧
        (s.after job t₀ rounds).forwarded = s.forwarded ++ l ∧
        ∀ ev ∈ l, ev.status.isTerminal = false := by
    intro s t hit hsilent
    obtain ⟨hasked, hforwarded⟩ := forwardEvents_silent job t₀ hsilent hit
    exact ⟨3, [], hasked, hforwarded.trans (List.append_nil _).symm,
      fun _ hm => absurd hm List.not_mem_nil⟩
  induction n generalizing t s with
  | zero => exact hnow hit fun idle ev h0 => Nat.not_lt.mp fun hlt => hlate ⟨idle, ev, h0, hlt⟩
  | succ n ih =>
    obtain ⟨idle, ev, h0, hopen0⟩ := hopen 0 (Nat.succ_pos n)
    by_cases hlt : idle < microseconds SSE_HEARTBEAT_SECONDS
    · obtain ⟨rounds, l, hasked, hforwarded, hl⟩ := ih (s := s.ask.receive ev ⟨false, t.later⟩)
        (t := t.later) (fun k hk => hopen (k + 1) (Nat.succ_lt_succ hk)) hlate rfl
      rw [SseConnection.receive_asked, SseConnection.ask_asked] at hasked
      rw [SseConnection.receive_forwarded, SseConnection.ask_forwarded] at hforwarded
      refine ⟨rounds + 1, ev :: l, ?_⟩
      rw [after_of_event rounds (answer_forward_of_lt (s := s.ask) hit h0 hlt), hopen0,
        if_neg Bool.false_ne_true]
      refine ⟨by omega, by rw [hforwarded, List.append_assoc, List.singleton_append], ?_⟩
      intro ev' hm
      rcases List.mem_cons.mp hm with rfl | hm
      · exact hopen0
      · exact hl ev' hm
    · refine hnow hit fun idle' ev' h0' => ?_
      rw [h0] at h0'
      cases h0'
      exact Nat.not_lt.mp hlt

/-! ## The stream -/

/-- The stream when it has subscribed. -/
def SseConnection.subscribed (job : JobPublicDTO) (t : Timeline) : SseConnection :=
  ⟨⟨false, t⟩, [.status (jobSnapshotEvent job)], 0⟩

/-- The stream of a job that is not terminal is its loop, after the snapshot. -/
theorem streamed_eq (user : CurrentUserDTO) (t : Timeline) (rounds : Nat)
    (hjob : job.status.isTerminal = false) :
    (streamed user job t rounds).forwarded =
      ((SseConnection.subscribed job t).after job t rounds).forwarded ∧
    (streamed user job t rounds).asked =
      ((SseConnection.subscribed job t).after job t rounds).asked := by
  have hloop : streamed user job t rounds =
      { (SseConnection.subscribed job t).after job t rounds with
        iterator :=
          ⟨true, ((SseConnection.subscribed job t).after job t rounds).iterator.timeline⟩ } := by
    have hsnap : (jobSnapshotEvent job).status.isTerminal = false := hjob
    rw [streamed, streamJobEvents, Prog.bind_eq, Prog.eval_bind, streamCall, Prog.eval_perform]
    change (Prog.eval _ ((streamCall (.emit _)).bind _) _).2 = _
    rw [Prog.eval_bind, streamCall, Prog.eval_perform]
    change (Prog.eval _ (if _ then _ else _) _).2 = _
    rw [hsnap, if_neg Bool.false_ne_true]
    change (Prog.eval _ ((streamCall (.subscribe _)).bind _) _).2 = _
    rw [Prog.eval_bind, streamCall, Prog.eval_perform]
    change (Prog.eval _ ((Prog.attempt _).bind _) (SseConnection.subscribed job t)).2 = _
    rw [Prog.eval_bind, Prog.eval_attempt]
    change (Prog.eval _ ((streamCall .aclose).bind _) _).2 = _
    rw [Prog.eval_bind, streamCall, Prog.eval_perform]
    change (Prog.eval _ (Prog.ofExcept _) _).2 = _
    rw [Prog.eval_ofExcept]
    rfl
  rw [hloop]
  exact ⟨rfl, rfl⟩

/-- What is asked of a stream: it sends the snapshot and then the events, in order and once, up to
the first terminal one; every one of these at some time; and it begins fewer rounds than it is given
only when it has sent a terminal one. -/
structure ForwardsUntilTerminal (user : CurrentUserDTO) (job : JobPublicDTO)
    (t : Timeline) : Prop where
  ordered : ∀ rounds, ∃ n,
    (streamed user job t rounds).forwarded = jobSnapshotEvent job :: t.events n
  complete : ∀ n, ∃ rounds, (streamed user job t rounds).forwarded = jobSnapshotEvent
    job :: t.events n
  stays : ∀ rounds, (streamed user job t rounds).asked < rounds →
    ∃ ev ∈ (streamed user job t rounds).forwarded.tail, ev.status.isTerminal = true

theorem ForwardsUntilTerminal.of_timely (user : CurrentUserDTO)
    (hjob : job.status.isTerminal = false) (h : t.Timely) : ForwardsUntilTerminal user job t := by
  have hrun : ∀ rounds, (streamed user job t rounds).forwarded =
      jobSnapshotEvent job :: t.events rounds ∧ ((streamed user job t rounds).asked < rounds →
        ∃ ev ∈ t.events rounds, ev.status.isTerminal = true) := by
    intro rounds
    obtain ⟨hf, ha⟩ := streamed_eq user t rounds hjob
    rw [hf, ha]
    obtain ⟨hforwarded, hasked⟩ := forwardEvents_timely job t (s := .subscribed job t) rounds h rfl
    refine ⟨hforwarded, fun hlt => hasked ?_⟩
    rwa [show (SseConnection.subscribed job t).asked = 0 from rfl, Nat.zero_add]
  refine ⟨fun rounds => ⟨rounds, (hrun rounds).1⟩, fun n => ⟨n, (hrun n).1⟩, fun rounds hlt => ?_⟩
  rw [(hrun rounds).1]
  exact (hrun rounds).2 hlt

/-- A heartbeat that falls due before a terminal event ends the stream without one. -/
theorem ForwardsUntilTerminal.timely {user : CurrentUserDTO} (hjob : job.status.isTerminal = false)
    (h : ForwardsUntilTerminal user job t) : t.Timely := by
  intro n hopen
  by_contra hlate
  obtain ⟨rounds, l, hasked, hforwarded, hl⟩ :=
    forwardEvents_late job t (s := .subscribed job t) n hopen hlate rfl
  obtain ⟨hf, ha⟩ := streamed_eq user t rounds hjob
  rw [show (SseConnection.subscribed job t).asked = 0 from rfl, Nat.zero_add] at hasked
  obtain ⟨ev, hm, ht⟩ := h.stays rounds (ha ▸ hasked)
  rw [hf, hforwarded] at hm
  rw [hl ev hm] at ht
  cases ht

/-- **A stream survives no heartbeat.** The stream forwards every event up to the first terminal
one, in order and once, and does not end before it, exactly when each event up to there comes in
less than `SSE_HEARTBEAT_SECONDS` after the one before. -/
theorem stream_forwards_iff (user : CurrentUserDTO) (hjob : job.status.isTerminal = false)
    (t : Timeline) : ForwardsUntilTerminal user job t ↔ t.Timely :=
  ⟨fun h => h.timely hjob, .of_timely user hjob⟩

/-! ### Job 1 is cancelled while user 7 watches -/

/-- Nothing is published for `idle`, and then the cancellation. -/
def cancelledAfter (idle : Nat) : Timeline
  | 0 => some (idle, cancelledEvent)
  | _ => none

def watchedJob : JobPublicDTO := toJobPublicDto (toStoredJobDto (sampleJob 1))

theorem cancelledAfter_timely {idle : Nat} (h : idle < microseconds SSE_HEARTBEAT_SECONDS) :
    (cancelledAfter idle).Timely := by
  intro n hopen
  cases n with
  | zero => exact ⟨idle, cancelledEvent, rfl, h⟩
  | succ n =>
    obtain ⟨idle', ev, h0, ht⟩ := hopen 0 (Nat.succ_pos n)
    cases h0
    cases ht

/-- After two seconds: the stream forwards it. -/
theorem stream_forwards_prompt_cancellation :
    ForwardsUntilTerminal ⟨7, .user⟩ watchedJob (cancelledAfter (microseconds 2)) :=
  (stream_forwards_iff ⟨7, .user⟩ rfl _).mpr (cancelledAfter_timely (by decide))

/-- After sixteen: the stream has ended, and it is lost. -/
theorem heartbeat_loses_cancellation : watchedJob.status.isTerminal = false ∧
    (cancelledAfter (microseconds 16)).events 1 = [cancelledEvent] ∧
    ¬ ForwardsUntilTerminal ⟨7, .user⟩ watchedJob (cancelledAfter (microseconds 16)) := by
  refine ⟨rfl, rfl, fun h => ?_⟩
  obtain ⟨idle, ev, h0, hlt⟩ := h.timely rfl 0 fun k hk => absurd hk (Nat.not_lt_zero k)
  cases h0
  exact absurd hlt (by decide)

end CloudJob
