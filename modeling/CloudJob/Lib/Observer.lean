import CloudJob.Lib.Discipline

/-!
# `Lib/Observer.lean` — notes taken along a run

How often something was done, or how far an automaton has come, is a fact about a run and not about
the world it ended in. An observer sees every step, with the world before and after it, and keeps
notes; it never interferes. `ObservedBy` is a run with its notes.

Several observers are one (`ObservedBy.also`), so a statement names only the notes it is about, and
its proof may take others. The notes a proof takes most often are where each process stands in a
`Discipline` (`track`): `Follows.step` says that programs which obey a discipline keep obeying it
from there, so that a call about to be made is one the discipline allows. -/

set_option autoImplicit false

namespace Lib

variable {S : Sig} {M : Machine S} {G G' : Type}

/-- What an observer writes down at a step. -/
abbrev Notes (M : Machine S) (G : Type) := World M → Move M → World M → G → G

/-- `w'` is reached from `w` by steps that all satisfy `ok`; an observer who had noted `g` has noted
`g'` by then. -/
inductive Machine.ObservedBy (M : Machine S) (ok : World M → Move M → Prop) (note : Notes M G)
    (w : World M) (g : G) : World M → G → Prop where
  | refl : ObservedBy M ok note w g w g
  | tail {w₁ w₂ : World M} {g₁ : G} (m : Move M) : ObservedBy M ok note w g w₁ g₁ → ok w₁ m →
      M.step m w₁ = some w₂ → ObservedBy M ok note w g w₂ (note w₁ m w₂ g₁)

namespace Machine

variable {ok : World M → Move M → Prop} {note : Notes M G} {note' : Notes M G'}
  {w w' : World M} {g g' : G}

theorem ObservedBy.reachBy (h : M.ObservedBy ok note w g w' g') : M.ReachBy ok w w' := by
  induction h with
  | refl => exact .refl
  | tail m _ hok hs ih => exact .tail m ih hok hs

theorem ObservedBy.mono {ok' : World M → Move M → Prop} (himp : ∀ w m, ok w m → ok' w m)
    (h : M.ObservedBy ok note w g w' g') : M.ObservedBy ok' note w g w' g' := by
  induction h with
  | refl => exact .refl
  | tail m _ hok hs ih => exact .tail m ih (himp _ _ hok) hs

/-- What holds at the start and is kept by every step holds throughout. -/
theorem ObservedBy.invariant {I : World M → G → Prop} (h : M.ObservedBy ok note w g w' g')
    (hstart : I w g) (hstep : ∀ w₁ w₂ g₁ m, I w₁ g₁ → ok w₁ m → M.step m w₁ = some w₂ →
      I w₂ (note w₁ m w₂ g₁)) : I w' g' := by
  induction h with
  | refl => exact hstart
  | tail m _ hok hs ih => exact hstep _ _ _ m ih hok hs

/-- Every run can be observed. -/
theorem ReachBy.observed (h : M.ReachBy ok w w') (note : Notes M G) (g : G) :
    ∃ g', M.ObservedBy ok note w g w' g' := by
  induction h with
  | refl => exact ⟨g, .refl⟩
  | tail m _ hok hs ih =>
    obtain ⟨g₁, hg⟩ := ih
    exact ⟨_, .tail m hg hok hs⟩

/-- Two observers, each with notes of their own. -/
def both (note : Notes M G) (note' : Notes M G') : Notes M (G × G') :=
  fun w m w' g => (note w m w' g.1, note' w m w' g.2)

/-- A second observer can always be added. -/
theorem ObservedBy.also (h : M.ObservedBy ok note w g w' g') (note' : Notes M G') (x : G') :
    ∃ x', M.ObservedBy ok (both note note') w (g, x) w' (g', x') := by
  induction h with
  | refl => exact ⟨x, .refl⟩
  | tail m _ hok hs ih =>
    obtain ⟨x₁, hx⟩ := ih
    exact ⟨_, .tail m hx hok hs⟩

/-- Execute a schedule and take notes. -/
def observe (M : Machine S) (note : Notes M G) : List (Move M) → World M → G → Option (World M × G)
  | [], w, g => some (w, g)
  | m :: ms, w, g => match M.step m w with
    | some w' => observe M note ms w' (note w m w' g)
    | none => none

theorem ObservedBy.trans {w'' : World M} {g'' : G} (h : M.ObservedBy ok note w g w' g')
    (h' : M.ObservedBy ok note w' g' w'' g'') : M.ObservedBy ok note w g w'' g'' := by
  induction h' with
  | refl => exact h
  | tail m _ hok hs ih => exact .tail m ih hok hs

/-- Execute a schedule and take notes, as long as every move of it passes a test. -/
def observeIf (M : Machine S) (test : World M → Move M → Bool) (note : Notes M G) :
    List (Move M) → World M → G → Option (World M × G)
  | [], w, g => some (w, g)
  | m :: ms, w, g =>
      if test w m then
        match M.step m w with
        | some w' => observeIf M test note ms w' (note w m w' g)
        | none => none
      else none

/-- A schedule whose moves pass a test that is good enough is an observed run of such moves. -/
theorem ObservedBy.of_observeIf {test : World M → Move M → Bool}
    (hok : ∀ w m, test w m = true → ok w m) : ∀ {ms : List (Move M)} {w w' : World M} {g g' : G},
    M.observeIf test note ms w g = some (w', g') → M.ObservedBy ok note w g w' g'
  | [], w, w', g, g', h => by
    cases h
    exact .refl
  | m :: ms, w, w', g, g', h => by
    simp only [observeIf] at h
    split at h
    · rename_i ht
      cases hs : M.step m w with
      | none =>
        rw [hs] at h
        cases h
      | some w₁ =>
        rw [hs] at h
        have hfirst : M.ObservedBy ok note w g w₁ (note w m w₁ g) := .tail m .refl (hok w m ht) hs
        exact hfirst.trans (.of_observeIf hok h)
    · cases h

/-- A schedule of moves that pass a test is an observed run of such moves. -/
theorem ObservedBy.of_observe {test : Move M → Prop} : ∀ {ms : List (Move M)} {w w' : World M}
    {g g' : G}, (∀ m ∈ ms, test m) → M.observe note ms w g = some (w', g') →
    M.ObservedBy (fun _ m => test m) note w g w' g'
  | [], w, w', g, g', _, h => by
    cases h
    exact .refl
  | m :: ms, w, w', g, g', htest, h => by
    simp only [observe] at h
    cases hs : M.step m w with
    | none =>
      rw [hs] at h
      cases h
    | some w₁ =>
      rw [hs] at h
      have hfirst : M.ObservedBy (fun _ m => test m) note w g w₁ (note w m w₁ g) :=
        .tail m .refl (htest m List.mem_cons_self) hs
      exact hfirst.trans (.of_observe (fun m' hm => htest m' (List.mem_cons_of_mem _ hm)) h)

end Machine

/-! ## Where the processes stand in a discipline -/

namespace Discipline

variable (D : Discipline S) (start : D.State)

/-- A process that is started stands at `start`, and each of its calls moves it on; one that dies is
put back. -/
def track : Notes M (Pid → D.State) := fun w m _ σ => match m with
  | .start p _ => Function.update σ p start
  | .run p c => match w.procs p with
    | some (_, .call o _) => match M.exec p o c w.shared with
      | some (r, _) => Function.update σ p (D.next (σ p) o r)
      | none => σ
    | _ => σ
  | .crash p => Function.update σ p start
  | .env _ => σ

variable {D start} {σ : Pid → D.State} {w w' : World M} {want : M.Call → Prop}

theorem track_run {p : Pid} {c : M.Choice} {call : M.Call} {o : S.Op}
    {k : Except S.Exc (S.Ret o) → Prog S M.Out} {r : Except S.Exc (S.Ret o)} {s : M.State}
    (hp : w.procs p = some (call, .call o k)) (he : M.exec p o c w.shared = some (r, s)) :
    D.track start w (.run p c) w' σ = Function.update σ p (D.next (σ p) o r) := by
  simp only [track, hp, he]

/-- Only the process that moves is moved on. -/
theorem track_other {m : Move M} {q : Pid} (hq : m.pid ≠ some q) :
    D.track start w m w' σ q = σ q := by
  cases m with
  | start p c => exact Function.update_of_ne (fun heq => hq (congrArg some heq.symm)) ..
  | run p c =>
    have hqp : q ≠ p := fun heq => hq (congrArg some heq.symm)
    cases hp : w.procs p with
    | none => simp only [track, hp]
    | some x =>
      obtain ⟨call, prog⟩ := x
      cases prog with
      | ret a => simp only [track, hp]
      | raise e => simp only [track, hp]
      | call o k =>
        cases he : M.exec p o c w.shared with
        | none => simp only [track, hp, he]
        | some x => simp only [track, hp, he, Function.update_of_ne hqp]
  | crash p => exact Function.update_of_ne (fun heq => hq (congrArg some heq.symm)) ..
  | env e => rfl

/-- Every process that is wanted still obeys the discipline, from where it stands. -/
def Follows (D : Discipline S) (want : M.Call → Prop) (w : World M) (σ : Pid → D.State) : Prop :=
  ∀ p c prog, w.procs p = some (c, prog) → want c → D.Obeys prog (fun _ _ => True) (σ p)

/-- The call a process is at is allowed. -/
theorem Follows.ok (h : D.Follows want w σ) {p : Pid} {c : M.Call} {o : S.Op}
    {k : Except S.Exc (S.Ret o) → Prog S M.Out} (hp : w.procs p = some (c, .call o k))
    (hw : want c) : D.ok (σ p) o := (h p c _ hp hw).1

theorem Follows.step (hstart : ∀ c, want c → D.Obeys (M.prog c) (fun _ _ => True) start)
    (h : D.Follows want w σ) {m : Move M} (hs : M.step m w = some w')
    (hmay : ∀ p c call o k r s, m = .run p c → w.procs p = some (call, .call o k) → want call →
      M.exec p o c w.shared = some (r, s) → D.may (σ p) o r) :
    D.Follows want w' (D.track start w m w' σ) := by
  intro q c prog hq hw
  by_cases hpid : m.pid = some q
  · rcases Machine.step_cases hs with ⟨p, c', s, rfl, -, -, rfl⟩ |
      ⟨p, ch, c', o, k, r, s, rfl, hp, he, rfl⟩ | ⟨p, c', prog', rfl, -, rfl⟩ | ⟨e, s, rfl, -, rfl⟩
    · cases hpid
      simp only [Function.update_self, Option.some.injEq, Prod.mk.injEq] at hq
      obtain ⟨rfl, rfl⟩ := hq
      simp only [track, Function.update_self]
      exact hstart c' hw
    · cases hpid
      simp only [Function.update_self, Option.some.injEq, Prod.mk.injEq] at hq
      obtain ⟨rfl, rfl⟩ := hq
      rw [track_run hp he, Function.update_self]
      exact (h q c' _ hp hw).2 r (hmay q ch c' o k r s rfl hp hw he)
    · cases hpid
      simp only [Function.update_self, Option.some.injEq, Prod.mk.injEq] at hq
      obtain ⟨rfl, rfl⟩ := hq
      trivial
    · cases hpid
  · rw [track_other hpid]
    rw [Machine.step_procs_other hs hpid] at hq
    exact h q c prog hq hw

end Discipline

end Lib
