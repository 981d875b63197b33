import CloudJob.Lib.Machine

/-!
# `Lib/Rely.lean` — rely/guarantee reasoning over interleaved programs

A `Protocol` is the contract the processes of a machine keep with each other:

* `inv`, what holds of the shared state between any two steps;
* `rely p s s'`, what process `p` may assume of everything the *others* did between `s` and `s'`;
* `pre p o s`, what `p` must have established before it performs the call `o`;
* `may p o c s`, which outcomes of that call are considered at all. A contract about every run has
  `True` here; one about the runs in which some call never fails says so here, once.

The contract is checked once per **call** (`step_ok`): from `inv` and `pre`, any outcome of the call
keeps `inv` and stays within what every other process relies on. Programs are then checked one at a
time, without naming the others: `Safe p prog Q s` says that from `s`, whatever the others do within
the rely and however each call goes, `p` meets `pre` at every call of `prog` and ends in `Q`.

`Safe` is a weakest precondition with the interference built in, so it is stable by construction
(`Safe.rely`) and no assertion ever has to be shown stable on its own. `AllSafe.reach` is what pays
for it: in every reachable world every process is still `Safe`, hence — `AllSafe.pre` — every call
that is about to be made, by any process in any interleaving, meets its precondition.
-/

set_option autoImplicit false

namespace Lib

/-- The contract between the processes of `M`. -/
structure Protocol {S : Sig} (M : Machine S) where
  inv : M.State → Prop
  rely : Pid → M.State → M.State → Prop
  pre : Pid → S.Op → M.State → Prop
  may : Pid → S.Op → M.Choice → M.State → Prop
  rely_refl : ∀ p s, rely p s s
  rely_trans : ∀ {p s₁ s₂ s₃}, rely p s₁ s₂ → rely p s₂ s₃ → rely p s₁ s₃
  step_ok : ∀ {p o c s r s'}, inv s → pre p o s → may p o c s → M.exec p o c s = some (r, s') →
    inv s' ∧ ∀ q, q ≠ p → rely q s s'
  env_ok : ∀ {e s s'}, inv s → M.env e s = some s' → inv s' ∧ ∀ q, rely q s s'
  crash_ok : ∀ {p s}, inv s → inv (M.crash p s) ∧ ∀ q, q ≠ p → rely q s (M.crash p s)
  start_ok : ∀ {p c s s'}, inv s → M.start p c s = some s' → inv s' ∧ ∀ q, q ≠ p → rely q s s'

namespace Protocol

variable {S : Sig} {M : Machine S} (P : Protocol M) {α β : Type}

/-- From `s`, and under any interference the rely allows, `p` runs `prog` meeting the precondition
of every call, and ends with `Q`. -/
def Safe (p : Pid) : Prog S α → (Except S.Exc α → M.State → Prop) → M.State → Prop
  | .ret a, Q, s => ∀ s', P.inv s' → P.rely p s s' → Q (.ok a) s'
  | .raise e, Q, s => ∀ s', P.inv s' → P.rely p s s' → Q (.error e) s'
  | .call o k, Q, s => ∀ s', P.inv s' → P.rely p s s' →
      P.pre p o s' ∧ ∀ c r s'', P.may p o c s' → M.exec p o c s' = some (r, s'') →
        Safe p (k r) Q s''

variable {P} {p : Pid}

/-- Interference does not break safety. -/
theorem Safe.rely {Q : Except S.Exc α → M.State → Prop} {s s' : M.State} :
    ∀ {prog : Prog S α}, P.Safe p prog Q s → P.rely p s s' → P.Safe p prog Q s'
  | .ret _, h, hr => fun s'' hi hr' => h s'' hi (P.rely_trans hr hr')
  | .raise _, h, hr => fun s'' hi hr' => h s'' hi (P.rely_trans hr hr')
  | .call _ _, h, hr => fun s'' hi hr' => h s'' hi (P.rely_trans hr hr')

theorem Safe.mono {Q Q' : Except S.Exc α → M.State → Prop}
    (himp : ∀ r s, P.inv s → Q r s → Q' r s) :
    ∀ {prog : Prog S α} {s : M.State}, P.Safe p prog Q s → P.Safe p prog Q' s
  | .ret _, _, h => fun s' hi hr => himp _ _ hi (h s' hi hr)
  | .raise _, _, h => fun s' hi hr => himp _ _ hi (h s' hi hr)
  | .call _ _, _, h => fun s' hi hr =>
      ⟨(h s' hi hr).1, fun c r s'' hm he => Safe.mono himp ((h s' hi hr).2 c r s'' hm he)⟩

/-- Interference before a program starts can be assumed done. -/
theorem Safe.of_rely {Q : Except S.Exc α → M.State → Prop} {s : M.State} :
    ∀ {prog : Prog S α}, (∀ s', P.inv s' → P.rely p s s' → P.Safe p prog Q s') → P.Safe p prog Q s
  | .ret _, h => fun s' hi hr => h s' hi hr s' hi (P.rely_refl p s')
  | .raise _, h => fun s' hi hr => h s' hi hr s' hi (P.rely_refl p s')
  | .call _ _, h => fun s' hi hr => h s' hi hr s' hi (P.rely_refl p s')

/-- Sequencing: the second program is safe wherever the first one leaves off, and an exception of
the first one is an exception of the whole. -/
theorem Safe.bind {f : α → Prog S β} {Q : Except S.Exc β → M.State → Prop} :
    ∀ {m : Prog S α} {s : M.State},
      P.Safe p m (fun r s' => match r with
        | .ok a => P.Safe p (f a) Q s'
        | .error e => Q (.error e) s') s →
      P.Safe p (m.bind f) Q s
  | .ret _, _, h => Safe.of_rely h
  | .raise _, _, h => h
  | .call _ _, _, h => fun s' hi hr =>
      ⟨(h s' hi hr).1, fun c r s'' hm he => Safe.bind ((h s' hi hr).2 c r s'' hm he)⟩

/-- A `try` body hands its outcome, exception or not, to what follows. -/
theorem Safe.attempt {Q : Except S.Exc (Except S.Exc α) → M.State → Prop} :
    ∀ {m : Prog S α} {s : M.State}, P.Safe p m (fun r s' => Q (.ok r) s') s →
      P.Safe p m.attempt Q s
  | .ret _, _, h => h
  | .raise _, _, h => h
  | .call _ _, _, h => fun s' hi hr =>
      ⟨(h s' hi hr).1, fun c r s'' hm he => Safe.attempt ((h s' hi hr).2 c r s'' hm he)⟩

/-- Sequencing, with the first program's own postcondition in between. -/
theorem Safe.andThen {m : Prog S α} {f : α → Prog S β} {R : Except S.Exc α → M.State → Prop}
    {Q : Except S.Exc β → M.State → Prop} {s : M.State} (hm : P.Safe p m R s)
    (hok : ∀ a s', P.inv s' → R (.ok a) s' → P.Safe p (f a) Q s')
    (herr : ∀ e s', P.inv s' → R (.error e) s' → Q (.error e) s') : P.Safe p (m.bind f) Q s := by
  refine Safe.bind (hm.mono fun r s' hi hr => ?_)
  cases r with
  | ok a => exact hok a s' hi hr
  | error e => exact herr e s' hi hr

/-- `try`/`except`: the handler takes over where the body raised. -/
theorem Safe.tryCatch {m : Prog S α} {handler : S.Exc → Prog S α}
    {Q : Except S.Exc α → M.State → Prop} {s : M.State}
    (h : P.Safe p m (fun r s' => match r with
      | .ok a => P.Safe p (.ret a) Q s'
      | .error e => P.Safe p (handler e) Q s') s) : P.Safe p (m.tryCatch handler) Q s := by
  refine Safe.bind (Safe.attempt (h.mono fun r s' _ hr => ?_))
  cases r with
  | ok a => exact hr
  | error e => exact hr

/-- A call and what follows it. The continuation is checked right after the call: the interference
that comes before the next one is the next one's business. -/
theorem Safe.call_bind {o : S.Op} {f : S.Ret o → Prog S β} {Q : Except S.Exc β → M.State → Prop}
    {s : M.State}
    (h : ∀ s', P.inv s' → P.rely p s s' →
      P.pre p o s' ∧ ∀ c r s'', P.may p o c s' → M.exec p o c s' = some (r, s'') →
        match r with
        | .ok a => P.Safe p (f a) Q s''
        | .error e => P.Safe p (.raise e) Q s'') :
    P.Safe p ((Prog.perform o).bind f) Q s := by
  intro s' hi hr
  refine ⟨(h s' hi hr).1, fun c r s'' hm he => ?_⟩
  have hq := (h s' hi hr).2 c r s'' hm he
  cases r with
  | ok a => exact hq
  | error e => exact hq

/-! ## Soundness -/

variable (P)

/-- The invariant holds and every process can finish safely, with the postcondition of the operation
it was started on. -/
def AllSafe (post : Pid → M.Call → Except S.Exc M.Out → M.State → Prop) (w : World M) : Prop :=
  P.inv w.shared ∧ ∀ p c prog, w.procs p = some (c, prog) → P.Safe p prog (post p c) w.shared

variable {P}

/-- Every process but the one that moved is still safe. -/
theorem others_safe {post : Pid → M.Call → Except S.Exc M.Out → M.State → Prop} {w : World M}
    (h : P.AllSafe post w) {p : Pid} {s : M.State} (hr : ∀ q, q ≠ p → P.rely q w.shared s)
    {x : M.Call × Prog S M.Out} (hp : P.Safe p x.2 (post p x.1) s) :
    ∀ q c prog, Function.update w.procs p (some x) q = some (c, prog) →
      P.Safe q prog (post q c) s := by
  intro q c prog hq
  by_cases hqp : q = p
  · subst hqp
    rw [Function.update_self] at hq
    cases hq
    exact hp
  · rw [Function.update_of_ne hqp] at hq
    exact (h.2 q c prog hq).rely (hr q hqp)

/-- **Soundness, one step.** A world in which everything is safe steps to one in which everything
is, given that operations are safe where they are started, that a dead process owes nothing, and
that the call made, if it was one, went a way the contract considers. -/
theorem AllSafe.step {post : Pid → M.Call → Except S.Exc M.Out → M.State → Prop}
    (hstart : ∀ p c s s', P.inv s → M.start p c s = some s' → P.Safe p (M.prog c) (post p c) s')
    (hcrash : ∀ p c s, post p c (.error M.crashed) s)
    {m : Move M} {w w' : World M} (h : P.AllSafe post w)
    (hmay : ∀ p ch c o k, m = .run p ch → w.procs p = some (c, .call o k) → P.may p o ch w.shared)
    (hs : M.step m w = some w') : P.AllSafe post w' := by
  rcases Machine.step_cases hs with ⟨p, c, s, rfl, hp, hst, rfl⟩ |
    ⟨p, c, call, o, k, r, s, rfl, hp, he, rfl⟩ | ⟨p, call, prog, rfl, hp, rfl⟩ |
    ⟨e, s, rfl, he, rfl⟩
  · obtain ⟨hi, hr⟩ := P.start_ok h.1 hst
    exact ⟨hi, others_safe h hr (hstart p c _ _ h.1 hst)⟩
  · have hm := hmay p c call o k rfl hp
    obtain ⟨hpre, hk⟩ := h.2 p call _ hp _ h.1 (P.rely_refl p _)
    obtain ⟨hi, hr⟩ := P.step_ok h.1 hpre hm he
    exact ⟨hi, others_safe h hr (x := (call, k r)) (hk c r s hm he)⟩
  · obtain ⟨hi, hr⟩ := P.crash_ok (p := p) h.1
    exact ⟨hi, others_safe h hr (x := (call, .raise M.crashed)) (fun s' _ _ => hcrash p call s')⟩
  · obtain ⟨hi, hr⟩ := P.env_ok h.1 he
    exact ⟨hi, fun q c prog hq => (h.2 q c prog hq).rely (hr q)⟩

/-- **Soundness.** -/
theorem AllSafe.reach {post : Pid → M.Call → Except S.Exc M.Out → M.State → Prop}
    (hstart : ∀ p c s s', P.inv s → M.start p c s = some s' → P.Safe p (M.prog c) (post p c) s')
    (hcrash : ∀ p c s, post p c (.error M.crashed) s)
    {ok : World M → Move M → Prop}
    (hmay : ∀ w p ch c o k, ok w (.run p ch) → w.procs p = some (c, .call o k) →
      P.may p o ch w.shared)
    {w w' : World M} (h : P.AllSafe post w) (hw : M.ReachBy ok w w') : P.AllSafe post w' :=
  Machine.ReachBy.invariant hw h fun _ _ _ hi hok hs =>
    AllSafe.step hstart hcrash hi (fun p ch c o k hm hp => hmay _ p ch c o k (hm ▸ hok) hp) hs

/-- Every call about to be made meets its precondition. -/
theorem AllSafe.pre {post : Pid → M.Call → Except S.Exc M.Out → M.State → Prop} {w : World M}
    (h : P.AllSafe post w) {p : Pid} {c : M.Call} {o : S.Op}
    {k : Except S.Exc (S.Ret o) → Prog S M.Out} (hp : w.procs p = some (c, .call o k)) :
    P.pre p o w.shared :=
  (h.2 p c _ hp _ h.1 (P.rely_refl p _)).1

/-- What a process that has ended owes holds. -/
theorem AllSafe.post_ret {post : Pid → M.Call → Except S.Exc M.Out → M.State → Prop} {w : World M}
    (h : P.AllSafe post w) {p : Pid} {c : M.Call} {a : M.Out}
    (hp : w.procs p = some (c, .ret a)) : post p c (.ok a) w.shared :=
  h.2 p c _ hp _ h.1 (P.rely_refl p _)

theorem AllSafe.post_raise {post : Pid → M.Call → Except S.Exc M.Out → M.State → Prop} {w : World M}
    (h : P.AllSafe post w) {p : Pid} {c : M.Call} {e : S.Exc}
    (hp : w.procs p = some (c, .raise e)) : post p c (.error e) w.shared :=
  h.2 p c _ hp _ h.1 (P.rely_refl p _)

end Protocol

end Lib
