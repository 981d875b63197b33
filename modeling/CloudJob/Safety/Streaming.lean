import CloudJob.Lib.Rely
import CloudJob.Streaming

/-!
# `Safety/Streaming.lean` — what a subscribed stream has not missed

A stream loads the job first and subscribes afterwards. A terminal event published in between
reaches nobody: that is the one way a subscribed stream can be without it. -/

set_option autoImplicit false

namespace CloudJob

open Lib

/-- A terminal event of the job. -/
def JobStatusEvent.Ends (ev : JobStatusEvent) (jobId : Uuid) : Prop :=
  ev.jobId = jobId ∧ ev.status.isTerminal = true

namespace StreamState

def Terminal (s : StreamState) (jobId : Uuid) : Prop :=
  ∃ job, s.db.job jobId = some job ∧ job.status.isTerminal = true

/-- The stream has yielded a terminal status, or a terminal event of the job waits to be
received. -/
def Has (s : StreamState) (p : Pid) (sub : Subscription) : Prop :=
  (∃ ev, .status ev ∈ s.emitted p ∧ ev.status.isTerminal = true) ∨ ∃ ev ∈ sub.waiting,
    ev.Ends sub.jobId

end StreamState

open StreamState

structure StreamInv (s : StreamState) : Prop where
  committed : ∀ ev ∈ s.published, ∀ j, ev.Ends j → s.Terminal j
  loaded : ∀ p j, s.loaded p = some j → ∀ ev ∈ s.published, ¬ ev.Ends j
  subscribed : ∀ p sub, s.subscriptions p = some sub →
    (∃ ev ∈ s.published, ev.Ends sub.jobId) → s.Has p sub

structure StreamRely (p : Pid) (s s' : StreamState) : Prop where
  terminal : ∀ j, s.Terminal j → s'.Terminal j
  loaded : s'.loaded p = s.loaded p

def StreamPre (p : Pid) (s : StreamState) : StreamOp → Prop
  | .subscribe j => s.loaded p = some j
  | .publish ev => ∀ j, ev.Ends j → s.Terminal j
  | _ => True

/-- No terminal event is published while a stream has loaded its job and not subscribed yet. -/
def NoneBetween (s : StreamState) : StreamOp → Prop
  | .publish ev => ∀ q j, s.loaded q = some j → ¬ ev.Ends j
  | _ => True

variable {s s' : StreamState} {p : Pid}

theorem moveTo_id (ev : JobStatusEvent) (job : Job) : (moveTo ev job).id = job.id := rfl

theorem canTransition_of_isTerminal {current target : JobStatus} (h : current.isTerminal = true) :
    JobStatePolicy.canTransition current target = false := by
  cases current <;> first | (cases h; done) | (cases target <;> rfl)

/-- Everything a call can do. -/
inductive StreamEffect (p : Pid) : StreamOp → StreamState → StreamState → Prop where
  | same {o : StreamOp} (s : StreamState) : StreamEffect p o s s
  | loads {s : StreamState} {user : CurrentUserDTO} {j : Uuid} {job : Job} : s.db.job j = some job →
      job.status.isTerminal = false →
      StreamEffect p (.getJobDetail user j) s
      { s with loaded := Function.update s.loaded p (some j) }
  | emits (s : StreamState) (chunk : SseChunk) : StreamEffect p (.emit chunk) s (s.addChunk p chunk)
  | subscribes (s : StreamState) (j : Uuid) : StreamEffect p (.subscribe j) s { s with
      subscriptions := Function.update s.subscriptions p (some ⟨j, []⟩)
      loaded := Function.update s.loaded p none }
  | forwards {s : StreamState} {j : Uuid} {ev : JobStatusEvent} {rest : List JobStatusEvent} :
      s.subscriptions p = some ⟨j, ev :: rest⟩ →
      StreamEffect p .forward s
        ({ s with subscriptions := Function.update s.subscriptions p (some ⟨j, rest⟩) }.addChunk p
          (.status ev))
  | closes {o : StreamOp} (s : StreamState) : StreamEffect p o s (s.close p)
  | moves {s : StreamState} {ev : JobStatusEvent} {job : Job} : s.db.job ev.jobId = some job →
      JobStatePolicy.canTransition job.status ev.status = true →
      StreamEffect p (.transition ev) s { s with db := { s.db with
        jobs := s.db.jobs.modify ev.jobId (moveTo ev) fun _ => rfl } }
  | publishes (s : StreamState) (ev : JobStatusEvent) : StreamEffect p (.publish ev) s { s with
      subscriptions := fun q => (s.subscriptions q).map (deliver ev)
      published := s.published ++ [ev] }

theorem StreamState.exec_effect {o : StreamOp} {c : StreamChoice} {r : Except StreamExc o.Ret}
    (h : s.exec p o c = some (r, s')) : StreamEffect p o s s' := by
  cases o with
  | getJobDetail user j =>
    cases c with
    | answer =>
      simp only [exec] at h
      cases hv : s.visibleJob user j with
      | none =>
        rw [hv] at h
        cases h
        exact .same s
      | some job =>
        rw [hv] at h
        cases h
        split
        · exact .same s
        · rename_i ht
          exact .loads (Option.filter_eq_some_iff.mp hv).1 (Bool.not_eq_true _ ▸ ht)
    | _ => cases h
  | emit chunk =>
    cases c with
    | answer =>
      cases h
      exact .emits s chunk
    | _ => cases h
  | subscribe j =>
    cases c with
    | answer =>
      cases h
      exact .subscribes s j
    | _ => cases h
  | isDisconnected =>
    cases c with
    | answer | gone =>
      cases h
      exact .same s
    | _ => cases h
  | forward =>
    cases hs : s.subscriptions p with
    | none =>
      cases c with
      | answer =>
        simp only [exec, hs] at h
        cases h
        exact .same s
      | timeout | fails =>
        simp only [exec, hs] at h
        cases h
      | gone => cases h
    | some sub =>
      obtain ⟨j, waiting⟩ := sub
      cases c with
      | answer =>
        cases waiting with
        | nil =>
          simp only [exec, hs] at h
          cases h
        | cons ev rest =>
          simp only [exec, hs] at h
          cases h
          exact .forwards hs
      | timeout | fails =>
        simp only [exec, hs] at h
        cases h
        exact .closes s
      | gone => cases h
  | aclose =>
    cases c with
    | answer =>
      cases h
      exact .closes s
    | _ => cases h
  | transition ev =>
    cases c with
    | answer =>
      simp only [exec] at h
      cases hj : s.db.job ev.jobId with
      | none =>
        rw [hj] at h
        cases h
        exact .same s
      | some job =>
        rw [hj] at h
        dsimp only at h
        split at h
        · rename_i hcan
          cases h
          exact .moves hj hcan
        · cases h
          exact .same s
    | _ => cases h
  | publish ev =>
    cases c with
    | answer =>
      cases h
      exact .publishes s ev
    | _ => cases h

/-- A terminal job stays terminal: no transition leads out of it. -/
theorem StreamEffect.terminal {o : StreamOp} (h : StreamEffect p o s s') {j : Uuid}
    (hj : s.Terminal j) : s'.Terminal j := by
  cases h with
  | @moves _ ev job hjob hcan =>
    obtain ⟨job', hjob', ht⟩ := hj
    refine ⟨job', (Table.find?_modify (moveTo_id ev) j).trans ((if_neg ?_).trans hjob'), ht⟩
    rintro rfl
    rw [hjob] at hjob'
    cases hjob'
    rw [canTransition_of_isTerminal ht] at hcan
    cases hcan
  | _ => exact hj

theorem StreamEffect.rely {o : StreamOp} (h : StreamEffect p o s s') {q : Pid} (hq : q ≠ p) :
    StreamRely q s s' := by
  refine ⟨fun j => h.terminal, ?_⟩
  cases h with
  | loads | subscribes => exact Function.update_of_ne hq ..
  | _ => rfl

/-- What a stream has it keeps while it only yields more and more is waiting. -/
theorem StreamState.Has.mono {sub sub' : Subscription} (h : s.Has p sub)
    (hemitted : s.emitted p ⊆ s'.emitted p) (hjob : sub'.jobId = sub.jobId)
    (hwaiting : sub.waiting ⊆ sub'.waiting) : s'.Has p sub' := by
  refine h.imp ?_ ?_
  · rintro ⟨ev, hm, ht⟩
    exact ⟨ev, hemitted hm, ht⟩
  · rintro ⟨ev, hm, he⟩
    exact ⟨ev, hwaiting hm, hjob ▸ he⟩

theorem StreamState.emitted_addChunk (s : StreamState) (p : Pid) (chunk : SseChunk) (q : Pid) :
    s.emitted q ⊆ (s.addChunk p chunk).emitted q := by
  by_cases hqp : q = p
  · subst hqp
    rw [show (s.addChunk q chunk).emitted q = s.emitted q ++ [chunk] from Function.update_self ..]
    exact List.subset_append_left _ _
  · rw [show (s.addChunk p chunk).emitted q = s.emitted q from Function.update_of_ne hqp ..]
    exact List.Subset.refl _

/-- Taking an event out of the subscription yields it. -/
theorem StreamInv.forwards (hi : StreamInv s) {j : Uuid} {ev : JobStatusEvent} {rest : List JobStatusEvent}
    (hsub : s.subscriptions p = some ⟨j, ev :: rest⟩) :
    StreamInv ({ s with
      subscriptions := Function.update s.subscriptions p (some ⟨j, rest⟩) }.addChunk p (.status ev)) := by
  refine ⟨hi.committed, hi.loaded, fun q sub hq hpub => ?_⟩
  have hmore := emitted_addChunk
    { s with subscriptions := Function.update s.subscriptions p (some ⟨j, rest⟩) } p (.status ev) q
  have hq' : Function.update s.subscriptions p (some ⟨j, rest⟩) q = some sub := hq
  by_cases hqp : q = p
  · subst hqp
    rw [Function.update_self] at hq'
    cases hq'
    rcases hi.subscribed q _ hsub hpub with ⟨ev', hm, ht⟩ | ⟨ev', hm, he⟩
    · exact .inl ⟨ev', hmore hm, ht⟩
    · rcases List.mem_cons.mp hm with rfl | hm
      · refine .inl ⟨ev', ?_, he.2⟩
        have hlast : (({ s with subscriptions := Function.update s.subscriptions q (some ⟨j, rest⟩) } :
          StreamState).addChunk q (.status ev')).emitted q = s.emitted q ++ [.status ev'] :=
          Function.update_self ..
        rw [hlast]
        exact List.mem_append_right _ (List.mem_singleton_self _)
      · exact .inr ⟨ev', hm, he⟩
  · rw [Function.update_of_ne hqp] at hq'
    exact (hi.subscribed q sub hq' hpub).mono hmore rfl (List.Subset.refl _)

/-- An event is published: those who are subscribed have it, and nobody is in between. -/
theorem StreamInv.publishes (hi : StreamInv s) {ev : JobStatusEvent}
    (hpre : StreamPre p s (.publish ev)) (hmay : NoneBetween s (.publish ev)) :
    StreamInv { s with
      subscriptions := fun q => (s.subscriptions q).map (deliver ev)
      published := s.published ++ [ev] } := by
  have hmem : ∀ {ev'}, ev' ∈ s.published ++ [ev] → ev' ∈ s.published ∨ ev' = ev := fun hm =>
    (List.mem_append.mp hm).imp_right List.mem_singleton.mp
  refine ⟨fun ev' hm j he => ?_, fun q j hq ev' hm => ?_, fun q sub hq hpub => ?_⟩
  · rcases hmem hm with hm | rfl
    · exact hi.committed ev' hm j he
    · exact hpre j he
  · rcases hmem hm with hm | rfl
    · exact hi.loaded q j hq ev' hm
    · exact hmay q j hq
  · obtain ⟨sub₀, hq₀, rfl⟩ := Option.map_eq_some_iff.mp hq
    have hjob : (deliver ev sub₀).jobId = sub₀.jobId := by
      unfold deliver
      split <;> rfl
    have hkept : sub₀.waiting ⊆ (deliver ev sub₀).waiting := by
      unfold deliver
      split
      · exact List.subset_append_left _ _
      · exact List.Subset.refl _
    obtain ⟨ev', hm, he⟩ := hpub
    rw [hjob] at he
    rcases hmem hm with hm | rfl
    · exact (hi.subscribed q sub₀ hq₀ ⟨ev', hm, he⟩).mono (List.Subset.refl _) hjob hkept
    · refine .inr ⟨ev', ?_, hjob ▸ he⟩
      rw [deliver, if_pos he.1.symm]
      exact List.mem_append_right _ (List.mem_singleton_self _)

/-- Every call keeps the invariant. -/
theorem StreamEffect.inv {o : StreamOp} (h : StreamEffect p o s s') (hi : StreamInv s)
    (hpre : StreamPre p s o) (hmay : NoneBetween s o) : StreamInv s' := by
  have hcommitted : s'.published = s.published → ∀ ev ∈ s'.published, ∀ j, ev.Ends j →
      s'.Terminal j :=
    fun heq ev hm j he => h.terminal (hi.committed ev (heq ▸ hm) j he)
  cases h with
  | same => exact hi
  | forwards hsub => exact hi.forwards hsub
  | publishes => exact hi.publishes hpre hmay
  | moves => exact ⟨hcommitted rfl, hi.loaded, hi.subscribed⟩
  | emits _ chunk =>
    refine ⟨hi.committed, hi.loaded, fun q sub hq hpub => ?_⟩
    exact (hi.subscribed q sub hq hpub).mono (s.emitted_addChunk p chunk q) rfl (List.Subset.refl _)
  | @loads _ _ j job hjob hopen =>
    refine ⟨hi.committed, fun q j' hq ev hm he => ?_, hi.subscribed⟩
    have hq' : Function.update s.loaded p (some j) q = some j' := hq
    rw [Function.update_apply] at hq'
    split at hq'
    · cases hq'
      obtain ⟨job', hjob', ht⟩ := hi.committed ev hm j he
      rw [hjob] at hjob'
      cases hjob'
      rw [hopen] at ht
      cases ht
    · exact hi.loaded q j' hq' ev hm he
  | subscribes _ j =>
    refine ⟨hi.committed, fun q j' hq => ?_, fun q sub hq hpub => ?_⟩
    · have hq' : Function.update s.loaded p none q = some j' := hq
      rw [Function.update_apply] at hq'
      split at hq'
      · cases hq'
      · exact hi.loaded q j' hq'
    · have hq' : Function.update s.subscriptions p (some ⟨j, []⟩) q = some sub := hq
      rw [Function.update_apply] at hq'
      split at hq'
      · cases hq'
        obtain ⟨ev, hm, he⟩ := hpub
        exact absurd he (hi.loaded p j hpre ev hm)
      · exact hi.subscribed q sub hq' hpub
  | closes =>
    refine ⟨hi.committed, hi.loaded, fun q sub hq hpub => ?_⟩
    have hq' : Function.update s.subscriptions p none q = some sub := hq
    rw [Function.update_apply] at hq'
    split at hq'
    · cases hq'
    · exact hi.subscribed q sub hq' hpub

/-- The contract of streams and writers. -/
def streamContract : Protocol streamMachine where
  inv := StreamInv
  rely := StreamRely
  pre p o s := StreamPre p s o
  may _ o _ s := NoneBetween s o
  rely_refl _ _ := ⟨fun _ h => h, rfl⟩
  rely_trans h h' := ⟨fun j ht => h'.terminal j (h.terminal j ht), h'.loaded.trans h.loaded⟩
  step_ok hi hpre hmay he :=
    ⟨(StreamState.exec_effect he).inv hi hpre hmay, fun _ hq =>
      (StreamState.exec_effect he).rely hq⟩
  env_ok := fun {e} => nomatch e
  crash_ok := by
    intro p s hi
    refine ⟨⟨hi.committed, fun q j hq => ?_, fun q sub hq hpub => ?_⟩,
      fun q hq => ⟨fun _ h => h, Function.update_of_ne hq ..⟩⟩
    · have hq' : Function.update s.loaded p none q = some j := hq
      rw [Function.update_apply] at hq'
      split at hq'
      · cases hq'
      · exact hi.loaded q j hq'
    · have hq' : Function.update s.subscriptions p none q = some sub := hq
      rw [Function.update_apply] at hq'
      split at hq'
      · cases hq'
      · exact hi.subscribed q sub hq' hpub
  start_ok := by
    intro p c s s' hi hs
    cases hs
    exact ⟨hi, fun _ _ => ⟨fun _ h => h, rfl⟩⟩

/-! ## The programs -/

variable {α : Type} {Q : Except StreamExc α → StreamState → Prop}

/-- A call nothing is asked of. -/
theorem safe_streamCall {o : StreamOp} {f : o.Ret → StreamCode α} (hpre : ∀ s, StreamPre p s o)
    (hok : ∀ a s', streamContract.Safe p (f a) Q s') (herr : ∀ e s', Q (.error e) s') :
    streamContract.Safe p ((streamCall o).bind f) Q s := by
  refine Protocol.Safe.call_bind fun s' _ _ => ⟨hpre s', fun c r s'' _ _ => ?_⟩
  cases r with
  | ok a => exact hok a s''
  | error e => exact fun s₃ _ _ => herr e s₃

theorem safe_streamCall_last {o : StreamOp} (hpre : ∀ s, StreamPre p s o) :
    streamContract.Safe p (streamCall o) (fun _ _ => True) s := by
  rw [← Prog.bind_ret (streamCall o)]
  exact safe_streamCall hpre (fun _ _ _ _ _ => trivial) fun _ _ => trivial

theorem forwardEvents_safe (rounds : Nat) (s : StreamState) :
    streamContract.Safe p (forwardEvents rounds) (fun _ _ => True) s := by
  induction rounds generalizing s with
  | zero => exact fun _ _ _ => trivial
  | succ rounds ih =>
    refine safe_streamCall (fun _ => trivial) (fun gone s' => ?_) fun _ _ => trivial
    cases gone with
    | true => exact fun _ _ _ => trivial
    | false =>
      refine Protocol.Safe.bind (Protocol.Safe.attempt
        ((safe_streamCall_last (o := .forward) fun _ => trivial).mono fun r s'' _ _ => ?_))
      cases r with
      | ok ev =>
        show streamContract.Safe p (if ev.status.isTerminal then _ else _) _ _
        split
        · exact fun _ _ _ => trivial
        · exact ih s''
      | error e =>
        cases e with
        | timeoutError => exact safe_streamCall (fun _ => trivial) (fun _ s₃ => ih s₃) fun _ _ =>
            trivial
        | jobStatusPubSubError => exact safe_streamCall_last fun _ => trivial
        | _ => exact fun _ _ _ => trivial

/-- A job that is loaded before it is terminal. -/
theorem StreamState.exec_getJobDetail {user : CurrentUserDTO} {j : Uuid} {c : StreamChoice}
    {job : JobPublicDTO} (h : s.exec p (.getJobDetail user j) c = some (.ok job, s'))
    (hopen : job.status.isTerminal = false) : s'.loaded p = some j := by
  cases c with
  | answer =>
    simp only [exec] at h
    cases hv : s.visibleJob user j with
    | none =>
      rw [hv] at h
      cases h
    | some row =>
      rw [hv] at h
      cases h
      rw [if_neg (Bool.not_eq_true _ ▸ hopen)]
      exact Function.update_self ..
  | _ => cases h

/-- A transition that was made leaves the job in its status. -/
theorem StreamState.exec_transition {ev : JobStatusEvent} {c : StreamChoice}
    (h : s.exec p (.transition ev) c = some (.ok true, s')) {j : Uuid} (he : ev.Ends j) :
    s'.Terminal j := by
  cases c with
  | answer =>
    simp only [exec] at h
    cases hj : s.db.job ev.jobId with
    | none =>
      rw [hj] at h
      cases h
    | some job =>
      rw [hj] at h
      dsimp only at h
      split at h
      · cases h
        refine ⟨moveTo ev job, ?_, he.2⟩
        refine (Table.find?_modify (moveTo_id ev) j).trans ((if_pos he.1.symm).trans ?_)
        exact congrArg (Option.map (moveTo ev)) hj
      · cases h
  | _ => cases h

/-- A stream subscribes to what it has loaded. -/
theorem streamJobEvents_safe (user : CurrentUserDTO) (j : Uuid) (rounds : Nat) :
    streamContract.Safe p (streamJobEvents user j rounds) (fun _ _ => True) s := by
  refine Protocol.Safe.call_bind fun s₁ _ _ => ⟨trivial, fun c r s₂ _ he => ?_⟩
  cases r with
  | error e => exact fun _ _ _ => trivial
  | ok job =>
    have hloaded : job.status.isTerminal = false → s₂.loaded p = some j := exec_getJobDetail he
    refine Protocol.Safe.call_bind fun s₃ _ hr₃ => ⟨trivial, fun c' r' s₄ _ he' => ?_⟩
    cases r' with
    | error e => exact fun _ _ _ => trivial
    | ok _ =>
      show streamContract.Safe p (if job.status.isTerminal then _ else _) _ _
      split
      · exact fun _ _ _ => trivial
      · rename_i hopen
        have hl₃ : s₃.loaded p = some j := hr₃.loaded.trans (hloaded (Bool.not_eq_true _ ▸ hopen))
        have hl₄ : s₄.loaded p = some j := by
          cases StreamState.exec_effect he' <;> exact hl₃
        refine Protocol.Safe.call_bind fun s₅ _ hr₅ =>
          ⟨hr₅.loaded.trans hl₄, fun c'' r'' s₆ _ _ => ?_⟩
        cases r'' with
        | error e => exact fun _ _ _ => trivial
        | ok _ =>
          refine Protocol.Safe.bind (Protocol.Safe.attempt
            ((forwardEvents_safe rounds _).mono fun r _ _ _ => ?_))
          refine safe_streamCall (fun _ => trivial) (fun _ s₇ => ?_) fun _ _ => trivial
          cases r <;> exact fun _ _ _ => trivial

/-- A writer publishes what it has committed. -/
theorem commitAndPublish_safe (ev : JobStatusEvent) :
    streamContract.Safe p (commitAndPublish ev) (fun _ _ => True) s := by
  refine Protocol.Safe.call_bind fun s₁ _ _ => ⟨trivial, fun c r s₂ _ he => ?_⟩
  cases r with
  | error e => exact fun _ _ _ => trivial
  | ok moved =>
    cases moved with
    | false => exact fun _ _ _ => trivial
    | true =>
      have hmoved : ∀ j, ev.Ends j → s₂.Terminal j := fun j => exec_transition he
      show streamContract.Safe p (streamCall (.publish ev)) _ _
      rw [← Prog.bind_ret (streamCall _)]
      refine Protocol.Safe.call_bind fun s₃ _ hr₃ =>
        ⟨fun j he => hr₃.terminal j (hmoved j he), fun _ r' _ _ _ => ?_⟩
      cases r' <;> exact fun _ _ _ => trivial

/-! ## Runs -/

/-- No terminal event is published between a stream's loading of the job and its subscription. -/
def NonePublishedBetween (w : World streamMachine) (mv : Move streamMachine) : Prop :=
  ∀ q c call o k, mv = .run q c → w.procs q = some (call, .call o k) → NoneBetween w.shared o

theorem stream_allSafe {db : Db} {w : World streamMachine}
    (h : streamMachine.ReachBy NonePublishedBetween (StreamState.world db) w) :
    streamContract.AllSafe (fun _ _ _ _ => True) w := by
  have hinit : streamContract.AllSafe (fun _ _ _ _ => True) (StreamState.world db) :=
    ⟨⟨nofun, nofun, nofun⟩, nofun⟩
  refine hinit.reach (fun p c s s' _ hs => ?_) (fun _ _ _ => trivial)
    (fun w p ch c o k hok hp => ?_) h
  · cases hs
    cases c with
    | stream user j rounds => exact streamJobEvents_safe user j rounds
    | write ev => exact commitAndPublish_safe ev
  · exact hok p ch c o k rfl hp

/-- Where no terminal event is published between the loading and the subscription of a stream: a
subscribed stream of a job whose terminal event has been published has yielded a terminal status, or
the event waits in its subscription. -/
theorem terminal_event_not_missed {db : Db} {w : World streamMachine}
    (h : streamMachine.ReachBy NonePublishedBetween (StreamState.world db) w) {sub : Subscription}
    (hsub : w.shared.subscriptions p = some sub)
    (hpub : ∃ ev ∈ w.shared.published, ev.Ends sub.jobId) : w.shared.Has p sub :=
  (stream_allSafe h).1.subscribed p sub hsub hpub

/-! ### Job 1 is cancelled while user 7 opens a stream of it -/

def cancelledEvent : JobStatusEvent := ⟨1, .cancelled, 0, seconds 2, none⟩

def pendingEvent : JobStatusEvent := ⟨1, .pending, 0, seconds 1, none⟩

def streamDb : Db := Db.empty.applyAll [.insertJob (sampleJob 1)]

/-- The stream loads the job and yields it; the job is cancelled, and the event published; the
stream subscribes. -/
def lateSubscription : List (Move streamMachine) :=
  [.start 1 (.stream ⟨7, .user⟩ 1 5), .run 1 .answer, .run 1 .answer,
    .start 0 (.write cancelledEvent), .run 0 .answer, .run 0 .answer, .run 1 .answer]

/-- The subscribed stream has nothing terminal, and nothing is waiting. -/
theorem terminal_event_missed : ∃ (w : World streamMachine) (sub : Subscription),
    streamMachine.Reach (StreamState.world streamDb) w ∧ w.shared.subscriptions 1 = some sub ∧
    (∃ ev ∈ w.shared.published, ev.Ends sub.jobId) ∧ ¬ w.shared.Has 1 sub := by
  have hrun : ((streamMachine.run lateSubscription (StreamState.world streamDb)).map fun w =>
      (w.shared.subscriptions 1, w.shared.published, w.shared.emitted 1)) =
      some (some ⟨1, []⟩, [cancelledEvent], [.status pendingEvent]) := by decide +kernel
  simp only [Option.map_eq_some_iff, Prod.mk.injEq] at hrun
  obtain ⟨w, hw, hsub, hpub, hemitted⟩ := hrun
  refine ⟨w, ⟨1, []⟩, .of_run hw, hsub, ⟨cancelledEvent, ?_, rfl, rfl⟩, ?_⟩
  · rw [hpub]
    exact List.mem_singleton_self _
  · rintro (⟨ev, hm, ht⟩ | ⟨ev, hm, -⟩)
    · rw [hemitted, List.mem_singleton] at hm
      cases hm
      cases ht
    · cases hm

/-- The stream subscribes first. -/
def earlySubscription : List (Move streamMachine) :=
  [.start 1 (.stream ⟨7, .user⟩ 1 5), .run 1 .answer, .run 1 .answer, .run 1 .answer,
    .start 0 (.write cancelledEvent), .run 0 .answer]

/-- No event is about to be published. -/
def notPublishing (w : World streamMachine) : Move streamMachine → Bool
  | .run p _ => match w.procs p with
      | some (_, .call (.publish _) _) => false
      | _ => true
  | _ => true

theorem nonePublishedBetween_of_notPublishing (w : World streamMachine) (mv : Move streamMachine)
    (h : notPublishing w mv = true) : NonePublishedBetween w mv := by
  rintro q c call o k rfl hp
  cases o with
  | publish ev =>
    simp only [notPublishing, hp] at h
    cases h
  | _ => trivial

theorem terminal_event_waiting : ∃ (w : World streamMachine) (sub : Subscription),
    w.shared.subscriptions 1 = some sub ∧ w.shared.published = [cancelledEvent] ∧
    w.shared.Has 1 sub := by
  have hrun : ((streamMachine.runIf notPublishing earlySubscription
    (StreamState.world streamDb)).bind
      fun w₁ => (streamMachine.step (.run 0 .answer) w₁).map fun w =>
        (w.shared.subscriptions 1, w.shared.published)) =
      some (some ⟨1, [cancelledEvent]⟩, [cancelledEvent]) := by decide +kernel
  simp only [Option.bind_eq_some_iff, Option.map_eq_some_iff, Prod.mk.injEq] at hrun
  obtain ⟨w₁, h₁, w, hw, hsub, hpub⟩ := hrun
  have hloaded : ∀ q j, w₁.shared.loaded q ≠ some j := by
    have hnone : (streamMachine.runIf notPublishing earlySubscription
      (StreamState.world streamDb)).map
        (fun w => w.shared.loaded) =
        some (Function.update (Function.update (fun _ => none) 1 (some 1)) 1 none) := rfl
    rw [h₁, Option.map_some, Option.some.injEq, Function.update_idem] at hnone
    intro q j hq
    rw [hnone, Function.update_apply] at hq
    split at hq <;> cases hq
  refine ⟨w, _, hsub, hpub, terminal_event_not_missed
    (.tail _ (.of_runIf nonePublishedBetween_of_notPublishing
    h₁) ?_ hw) hsub ⟨cancelledEvent, ?_, rfl, rfl⟩⟩
  · intro q c call o k _ _
    cases o with
    | publish ev => exact fun q' j hq' => absurd hq' (hloaded q' j)
    | _ => trivial
  · rw [hpub]
    exact List.mem_singleton_self _

end CloudJob
