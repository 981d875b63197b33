import Mathlib.Logic.Function.Basic
import CloudJob.Lib.Prog

/-!
# `Lib/Machine.lean` — many programs, one shared state

A `Machine` gives the calls of a signature their meaning on a shared state, and says what else can
happen to that state: processes are started on it, die on it, and an environment acts on it. A
`World` is the shared state together with every process that was ever started and the program each
still has to run. One `Move` is one atomic step, so a run is an arbitrary interleaving of single
calls, of deaths at any point between two calls, and of environment actions.

All nondeterminism is an explicit `Choice` handed to `exec`, never a relation: a schedule is a list
of moves, `run` executes it, and a concrete run is checked by evaluation.

A process number is used once. A process that ended keeps its final program (`ret` or `raise`), so
"what did this call answer" can be asked of any later world.
-/

set_option autoImplicit false

namespace Lib

/-- A process number. -/
abbrev Pid := Nat

/-- The meaning of the calls of `S` on a shared state, and everything else that acts on it. -/
structure Machine (S : Sig) where
  /-- The shared state. -/
  State : Type
  /-- How a call whose answer is not determined goes. -/
  Choice : Type
  /-- What the environment can do on its own. -/
  Env : Type
  /-- The operations a process can be started on. -/
  Call : Type
  /-- What such an operation returns. -/
  Out : Type
  /-- One call of one process; `none` when it cannot go that way, or has to wait. -/
  exec : Pid → (o : S.Op) → Choice → State → Option (Except S.Exc (S.Ret o) × State)
  env : Env → State → Option State
  /-- What the death of a process does to the shared state. -/
  crash : Pid → State → State
  /-- What is left of a process that died. -/
  crashed : S.Exc
  prog : Call → Prog S Out
  start : Pid → Call → State → Option State

/-- The shared state and the processes: what each was started on, and what it still has to run. -/
structure World {S : Sig} (M : Machine S) where
  shared : M.State
  procs : Pid → Option (M.Call × Prog S M.Out)

/-- One atomic step. -/
inductive Move {S : Sig} (M : Machine S) where
  | start (p : Pid) (c : M.Call)
  | run (p : Pid) (c : M.Choice)
  | crash (p : Pid)
  | env (e : M.Env)

/-- The process that moves, if one does. -/
def Move.pid {S : Sig} {M : Machine S} : Move M → Option Pid
  | .start p _ => some p
  | .run p _ => some p
  | .crash p => some p
  | .env _ => none

namespace Machine

variable {S : Sig} (M : Machine S)

/-- Process `p` performs the call it is at. -/
def runStep (p : Pid) (c : M.Choice) (w : World M) : Option (World M) :=
  match w.procs p with
  | some (call, .call o k) =>
      match M.exec p o c w.shared with
      | some (r, s) => some ⟨s, Function.update w.procs p (some (call, k r))⟩
      | none => none
  | _ => none

def step : Move M → World M → Option (World M)
  | .start p c, w =>
      match w.procs p with
      | some _ => none
      | none =>
          match M.start p c w.shared with
          | some s => some ⟨s, Function.update w.procs p (some (c, M.prog c))⟩
          | none => none
  | .run p c, w => M.runStep p c w
  | .crash p, w =>
      match w.procs p with
      | some (call, _) =>
          some ⟨M.crash p w.shared, Function.update w.procs p (some (call, .raise M.crashed))⟩
      | none => none
  | .env e, w =>
      match M.env e w.shared with
      | some s => some ⟨s, w.procs⟩
      | none => none

/-- Execute a schedule. -/
def run : List (Move M) → World M → Option (World M)
  | [], w => some w
  | m :: ms, w =>
      match M.step m w with
      | some w' => run ms w'
      | none => none

/-- `w'` is reached from `w` by steps that all satisfy `ok`. -/
inductive ReachBy (ok : World M → Move M → Prop) (w : World M) : World M → Prop where
  | refl : ReachBy ok w w
  | tail {w₁ w₂ : World M} (m : Move M) : ReachBy ok w w₁ → ok w₁ m → M.step m w₁ = some w₂ →
      ReachBy ok w w₂

/-- `w'` is reached from `w`. -/
abbrev Reach (w w' : World M) : Prop := M.ReachBy (fun _ _ => True) w w'

variable {M}

theorem ReachBy.mono {ok ok' : World M → Move M → Prop} (himp : ∀ w m, ok w m → ok' w m)
    {w w' : World M} (h : M.ReachBy ok w w') : M.ReachBy ok' w w' := by
  induction h with
  | refl => exact .refl
  | tail m _ hok hstep ih => exact .tail m ih (himp _ _ hok) hstep

theorem ReachBy.reach {ok : World M → Move M → Prop} {w w' : World M} (h : M.ReachBy ok w w') :
    M.Reach w w' := h.mono fun _ _ _ => trivial

theorem ReachBy.trans {ok : World M → Move M → Prop} {w w' w'' : World M}
    (h : M.ReachBy ok w w') (h' : M.ReachBy ok w' w'') : M.ReachBy ok w w'' := by
  induction h' with
  | refl => exact h
  | tail m _ hok hstep ih => exact .tail m ih hok hstep

/-- A schedule that executes is a run. -/
theorem Reach.of_run : ∀ {ms : List (Move M)} {w w' : World M}, M.run ms w = some w' →
    M.Reach w w'
  | [], w, w', h => by
    simp only [run, Option.some.injEq] at h
    exact h ▸ .refl
  | m :: ms, w, w', h => by
    simp only [run] at h
    cases hs : M.step m w with
    | none => rw [hs] at h; simp at h
    | some w₁ =>
      rw [hs] at h
      exact (ReachBy.tail m .refl trivial hs).trans (Reach.of_run h)

/-- Execute a schedule as long as every move of it passes a test. -/
def runIf (M : Machine S) (test : World M → Move M → Bool) :
    List (Move M) → World M → Option (World M)
  | [], w => some w
  | m :: ms, w =>
      if test w m then
        match M.step m w with
        | some w' => runIf M test ms w'
        | none => none
      else none

/-- A schedule whose moves pass a test that is good enough is a run of such moves. -/
theorem ReachBy.of_runIf {ok : World M → Move M → Prop} {test : World M → Move M → Bool}
    (hok : ∀ w m, test w m = true → ok w m) : ∀ {ms : List (Move M)} {w w' : World M},
    M.runIf test ms w = some w' → M.ReachBy ok w w'
  | [], w, w', h => by
    cases h
    exact .refl
  | m :: ms, w, w', h => by
    simp only [runIf] at h
    split at h
    · rename_i ht
      cases hs : M.step m w with
      | none =>
        rw [hs] at h
        cases h
      | some w₁ =>
        rw [hs] at h
        exact (ReachBy.tail m .refl (hok w m ht) hs).trans (ReachBy.of_runIf hok h)
    · cases h

/-- **The invariant rule.** What holds at the start and is kept by every step holds throughout. -/
theorem ReachBy.invariant {ok : World M → Move M → Prop} {I : World M → Prop} {w w' : World M}
    (h : M.ReachBy ok w w') (hw : I w)
    (hstep : ∀ w₁ w₂ m, I w₁ → ok w₁ m → M.step m w₁ = some w₂ → I w₂) : I w' := by
  induction h with
  | refl => exact hw
  | tail m _ hok hs ih => exact hstep _ _ m ih hok hs

/-- What one step can be: the four kinds, each with its effect on the shared state and on the
process it belongs to. Proofs about steps go through this and never unfold `step`. -/
theorem step_cases {m : Move M} {w w' : World M} (h : M.step m w = some w') :
    (∃ p c s, m = .start p c ∧ w.procs p = none ∧ M.start p c w.shared = some s ∧
      w' = ⟨s, Function.update w.procs p (some (c, M.prog c))⟩) ∨
    (∃ p c call o k r s, m = .run p c ∧ w.procs p = some (call, .call o k) ∧
      M.exec p o c w.shared = some (r, s) ∧
      w' = ⟨s, Function.update w.procs p (some (call, k r))⟩) ∨
    (∃ p call prog, m = .crash p ∧ w.procs p = some (call, prog) ∧
      w' = ⟨M.crash p w.shared, Function.update w.procs p (some (call, .raise M.crashed))⟩) ∨
    (∃ e s, m = .env e ∧ M.env e w.shared = some s ∧ w' = ⟨s, w.procs⟩) := by
  cases m with
  | start p c =>
    simp only [step] at h
    cases hp : w.procs p with
    | some _ => rw [hp] at h; simp at h
    | none =>
      rw [hp] at h
      cases hs : M.start p c w.shared with
      | none => rw [hs] at h; simp at h
      | some s =>
        rw [hs] at h
        exact Or.inl ⟨p, c, s, rfl, hp, hs, by simpa using h.symm⟩
  | run p c =>
    simp only [step, runStep] at h
    cases hp : w.procs p with
    | none => rw [hp] at h; simp at h
    | some cp =>
      rw [hp] at h
      obtain ⟨call, prog⟩ := cp
      cases prog with
      | ret _ => simp at h
      | raise _ => simp at h
      | call o k =>
        simp only at h
        cases he : M.exec p o c w.shared with
        | none => rw [he] at h; simp at h
        | some rs =>
          obtain ⟨r, s⟩ := rs
          rw [he] at h
          exact Or.inr (Or.inl ⟨p, c, call, o, k, r, s, rfl, hp, he, by simpa using h.symm⟩)
  | crash p =>
    simp only [step] at h
    cases hp : w.procs p with
    | none => rw [hp] at h; simp at h
    | some cp =>
      rw [hp] at h
      exact Or.inr (Or.inr (Or.inl ⟨p, cp.1, cp.2, rfl, hp, by simpa using h.symm⟩))
  | env e =>
    simp only [step] at h
    cases hs : M.env e w.shared with
    | none => rw [hs] at h; simp at h
    | some s =>
      rw [hs] at h
      exact Or.inr (Or.inr (Or.inr ⟨e, s, rfl, hs, by simpa using h.symm⟩))

/-- What a process was started on does not change. -/
theorem step_procs {m : Move M} {w w' : World M} (h : M.step m w = some w') {q : Pid} {c : M.Call}
    {prog' : Prog S M.Out} (hq : w'.procs q = some (c, prog')) :
    (∃ prog, w.procs q = some (c, prog)) ∨ (m = .start q c ∧ w.procs q = none ∧
      prog' = M.prog c) := by
  rcases step_cases h with ⟨p, c', s, rfl, hp, -, rfl⟩ | ⟨p, ch, c', o, k, r, s, rfl, hp, -, rfl⟩ |
    ⟨p, c', prog, rfl, hp, rfl⟩ | ⟨e, s, rfl, -, rfl⟩
  · by_cases hqp : q = p
    · subst hqp
      simp only [Function.update_self, Option.some.injEq, Prod.mk.injEq] at hq
      obtain ⟨rfl, rfl⟩ := hq
      exact .inr ⟨rfl, hp, rfl⟩
    · simp only [Function.update_of_ne hqp] at hq
      exact .inl ⟨_, hq⟩
  · by_cases hqp : q = p
    · subst hqp
      simp only [Function.update_self, Option.some.injEq, Prod.mk.injEq] at hq
      exact .inl ⟨_, hq.1 ▸ hp⟩
    · simp only [Function.update_of_ne hqp] at hq
      exact .inl ⟨_, hq⟩
  · by_cases hqp : q = p
    · subst hqp
      simp only [Function.update_self, Option.some.injEq, Prod.mk.injEq] at hq
      exact .inl ⟨_, hq.1 ▸ hp⟩
    · simp only [Function.update_of_ne hqp] at hq
      exact .inl ⟨_, hq⟩
  · exact .inl ⟨_, hq⟩

/-- What every program asks for where it is started, it asks for to its end. -/
theorem step_asks {ok : S.Op → Prop} {want : M.Call → Prop} {m : Move M} {w w' : World M}
    (hstart : ∀ c, want c → (M.prog c).Asks ok)
    (h : ∀ p c prog, w.procs p = some (c, prog) → want c → prog.Asks ok)
    (hs : M.step m w = some w') :
    ∀ p c prog, w'.procs p = some (c, prog) → want c → prog.Asks ok := by
  intro q c prog hq hc
  have hupdate : ∀ {p : Pid} {c' : M.Call} {prog' : Prog S M.Out}, (c' = c → prog'.Asks ok) →
      Function.update w.procs p (some (c', prog')) q = some (c, prog) → prog.Asks ok := by
    intro p c' prog' hx hq
    by_cases hqp : q = p
    · rw [hqp, Function.update_self] at hq
      cases hq
      exact hx rfl
    · rw [Function.update_of_ne hqp] at hq
      exact h q c prog hq hc
  rcases step_cases hs with ⟨p, c', s, rfl, -, -, rfl⟩ | ⟨p, ch, c', o, k, r, s, rfl, hp, -, rfl⟩ |
    ⟨p, c', prog', rfl, -, rfl⟩ | ⟨e, s, rfl, -, rfl⟩
  · refine hupdate (fun heq => ?_) hq
    rw [heq]
    exact hstart c hc
  · refine hupdate (fun heq => ?_) hq
    rw [heq] at hp
    exact (h p c _ hp hc).2 r
  · have hdead : (Prog.raise M.crashed : Prog S M.Out).Asks ok := trivial
    exact hupdate (fun _ => hdead) hq
  · exact h q c prog hq hc

/-- A process stands still while others move. -/
theorem step_procs_other {m : Move M} {w w' : World M} (h : M.step m w = some w') {q : Pid}
    (hq : m.pid ≠ some q) : w'.procs q = w.procs q := by
  rcases step_cases h with ⟨p, c', s, rfl, -, -, rfl⟩ | ⟨p, ch, c', o, k, r, s, rfl, -, -, rfl⟩ |
    ⟨p, c', prog, rfl, -, rfl⟩ | ⟨e, s, rfl, -, rfl⟩
  · exact Function.update_of_ne (fun heq => hq (congrArg some heq.symm)) ..
  · exact Function.update_of_ne (fun heq => hq (congrArg some heq.symm)) ..
  · exact Function.update_of_ne (fun heq => hq (congrArg some heq.symm)) ..
  · rfl

/-- A process id that is still free was free before. -/
theorem step_procs_none {m : Move M} {w w' : World M} (h : M.step m w = some w') {q : Pid}
    (hq : w'.procs q = none) : w.procs q = none ∧ ∀ c, m ≠ .start q c := by
  have hupdate : ∀ {p : Pid} {x : M.Call × Prog S M.Out},
      Function.update w.procs p (some x) q = none → w.procs q = none ∧ q ≠ p := by
    intro p x hq
    by_cases hqp : q = p
    · subst hqp
      simp at hq
    · rw [Function.update_of_ne hqp] at hq
      exact ⟨hq, hqp⟩
  rcases step_cases h with ⟨p, c', s, rfl, -, -, rfl⟩ | ⟨p, ch, c', o, k, r, s, rfl, -, -, rfl⟩ |
    ⟨p, c', prog, rfl, -, rfl⟩ | ⟨e, s, rfl, -, rfl⟩
  · obtain ⟨hnone, hne⟩ := hupdate hq
    exact ⟨hnone, fun c heq => hne (by cases heq; rfl)⟩
  · exact ⟨(hupdate hq).1, nofun⟩
  · exact ⟨(hupdate hq).1, nofun⟩
  · exact ⟨hq, nofun⟩

end Machine

end Lib
