import CloudJob.Lib.Machine

/-!
# `Lib/Discipline.lean` — what a program does by its own text

Some facts about a program need neither the shared state nor the other processes: that it never
makes a certain call, or makes it only after another one was answered in a certain way. A
`Discipline` is an automaton that reads the calls of a program and their answers: `ok` says which
calls are allowed in a state, `next` where an answer leads, and `may` which answers are considered
at all.

`Obeys` folds the automaton over the tree of a program. It distributes over the ways programs are
put together, so a discipline is checked along the text, once for each part.

`Inside` is the other half: a process that runs `m.bind k` is inside `m` until `m` has ended,
whatever the others do meanwhile. A fact about `m` is a fact about every step the process makes
there. -/

set_option autoImplicit false

namespace Lib

structure Discipline (S : Sig) where
  State : Type
  ok : State → S.Op → Prop
  may : State → (o : S.Op) → Except S.Exc (S.Ret o) → Prop
  next : State → (o : S.Op) → Except S.Exc (S.Ret o) → State

namespace Discipline

variable {S : Sig} (D : Discipline S) {α β : Type}

/-- Every call of the program is allowed where it is made, and the program ends in `R`. -/
def Obeys : Prog S α → (Except S.Exc α → D.State → Prop) → D.State → Prop
  | .ret a, R, q => R (.ok a) q
  | .raise e, R, q => R (.error e) q
  | .call o k, R, q => D.ok q o ∧ ∀ r, D.may q o r → Obeys (k r) R (D.next q o r)

variable {D} {R R' : Except S.Exc α → D.State → Prop}

theorem Obeys.mono (himp : ∀ r q, R r q → R' r q) :
    ∀ {m : Prog S α} {q : D.State}, D.Obeys m R q → D.Obeys m R' q
  | .ret _, _, h => himp _ _ h
  | .raise _, _, h => himp _ _ h
  | .call _ _, _, h => ⟨h.1, fun r hr => Obeys.mono himp (h.2 r hr)⟩

/-- Sequencing. -/
theorem Obeys.bind {f : α → Prog S β} {R : Except S.Exc β → D.State → Prop} :
    ∀ {m : Prog S α} {q : D.State}, D.Obeys m (fun r q => match r with
      | .ok a => D.Obeys (f a) R q
      | .error e => R (.error e) q) q → D.Obeys (m.bind f) R q
  | .ret _, _, h => h
  | .raise _, _, h => h
  | .call _ _, _, h => ⟨h.1, fun r hr => Obeys.bind (h.2 r hr)⟩

/-- The body of a `try`. -/
theorem Obeys.attempt {R : Except S.Exc (Except S.Exc α) → D.State → Prop} :
    ∀ {m : Prog S α} {q : D.State}, D.Obeys m (fun r q => R (.ok r) q) q → D.Obeys m.attempt R q
  | .ret _, _, h => h
  | .raise _, _, h => h
  | .call _ _, _, h => ⟨h.1, fun r hr => Obeys.attempt (h.2 r hr)⟩

/-- A body whose exceptions are all dropped. -/
theorem Obeys.suppress {m : Prog S α} {a : α} {I : D.State → Prop} {q : D.State}
    (h : D.Obeys m (fun r q => (∀ a', r = .ok a' → a' = a) ∧ I q) q) :
    D.Obeys (m.tryCatch fun _ => .ret a) (fun r q => r = .ok a ∧ I q) q := by
  refine .bind (.attempt (h.mono fun r q' hr => ?_))
  cases r with
  | ok a' => exact ⟨congrArg Except.ok (hr.1 a' rfl), hr.2⟩
  | error e => exact ⟨rfl, hr.2⟩

/-- One call, and what follows it. -/
theorem Obeys.perform {o : S.Op} {f : S.Ret o → Prog S β} {R : Except S.Exc β → D.State → Prop}
    {q : D.State} (hok : D.ok q o) (hret : ∀ a, D.may q o (.ok a) →
      D.Obeys (f a) R (D.next q o (.ok a)))
    (hraise : ∀ e, D.may q o (.error e) → R (.error e) (D.next q o (.error e))) :
    D.Obeys ((Prog.perform o).bind f) R q := by
  refine ⟨hok, fun r hr => ?_⟩
  cases r with
  | ok a => exact hret a hr
  | error e => exact hraise e hr

/-- A program all of whose calls are allowed, and lead nowhere, where `I` holds. -/
theorem Obeys.of_asks {I : D.State → Prop} :
    ∀ {m : Prog S α} {q : D.State}, m.Asks (fun o => ∀ q, I q → D.ok q o ∧ ∀ r, I (D.next q o r)) →
    I q →
      D.Obeys m (fun _ q => I q) q
  | .ret _, _, _, hq => hq
  | .raise _, _, _, hq => hq
  | .call _ _, q, h, hq => ⟨(h.1 q hq).1, fun r _ => Obeys.of_asks (h.2 r) ((h.1 q hq).2 r)⟩

/-- **One program alone**: what its calls keep, as long as they are allowed. -/
theorem Obeys.drive {σ : Type} {handler : (o : S.Op) → σ → Option (Except S.Exc (S.Ret o) × σ)}
    {I : D.State → σ → Prop}
    (hcall : ∀ {q o x r y}, I q x → D.ok q o → handler o x = some (r, y) → D.may q o r ∧
      I (D.next q o r) y) :
    ∀ {m : Prog S α} {q : D.State} {x y : σ} {r : Except S.Exc α}, D.Obeys m R q → I q x →
      m.drive handler x = some (r, y) → ∃ q', I q' y ∧ R r q'
  | .ret _, q, _, _, _, h, hI, hd => by
    cases hd
    exact ⟨q, hI, h⟩
  | .raise _, q, _, _, _, h, hI, hd => by
    cases hd
    exact ⟨q, hI, h⟩
  | .call o k, q, x, y, r, h, hI, hd => by
    obtain ⟨ro, x', hx, hd⟩ := Prog.drive_call hd
    obtain ⟨hmay, hI'⟩ := hcall hI h.1 hx
    exact Obeys.drive hcall (h.2 ro hmay) hI' hd

end Discipline

/-! ## Inside a part of a program -/

/-- From `w`, where it was about to run `m` and then `k`, process `p` has come to `m'` and then `k`,
by its own calls and between steps of others. -/
inductive Inside {S : Sig} {α : Type} (M : Machine S) (p : Pid) (m : Prog S α) (w : World M) :
    Prog S α → World M → Prop where
  | refl : Inside M p m w m w
  | own {o : S.Op} {f : Except S.Exc (S.Ret o) → Prog S α} {w₁ w₂ : World M} {c : M.Choice}
      {r : Except S.Exc (S.Ret o)} : Inside M p m w (.call o f) w₁ →
      M.exec p o c w₁.shared = some (r, w₂.shared) → M.step (.run p c) w₁ = some w₂ →
      Inside M p m w (f r) w₂
  | other {m' : Prog S α} {w₁ w₂ : World M} {mv : Move M} : Inside M p m w m' w₁ →
      mv.pid ≠ some p → M.step mv w₁ = some w₂ → Inside M p m w m' w₂

namespace Inside

variable {S : Sig} {M : Machine S} {α : Type} {p : Pid} {m m' : Prog S α} {w w' : World M}
  {k : α → Prog S M.Out} {c : M.Call}

/-- The program of the process is what is left of the part, and then the rest. -/
theorem procs (h : Inside M p m w m' w') (hp : w.procs p = some (c, m.bind k)) :
    w'.procs p = some (c, m'.bind k) := by
  induction h with
  | refl => exact hp
  | @own o f w₁ w₂ ch r _ he hs ih =>
    rcases Machine.step_cases hs with ⟨_, _, _, hmv, -⟩ |
      ⟨q, ch', c', o', k', r', s, hmv, hq, he', rfl⟩ |
      ⟨_, _, _, hmv, -⟩ | ⟨_, _, hmv, -⟩
    · cases hmv
    · cases hmv
      rw [ih] at hq
      cases hq
      rw [he] at he'
      cases he'
      exact Function.update_self ..
    · cases hmv
    · cases hmv
  | other _ hne hs ih => rw [Machine.step_procs_other hs hne, ih]

theorem reach (h : Inside M p m w m' w') : M.Reach w w' := by
  induction h with
  | refl => exact .refl
  | own _ _ hs ih => exact .tail _ ih trivial hs
  | other _ _ hs ih => exact .tail _ ih trivial hs

/-- **A process that runs `m` and then `k`** is inside `m` or past it: `Q` is kept along `m`, `J`
after it, and neither is touched by the others. -/
theorem inside_or {Q : Prog S α → M.State → Prop} {J : Prog S M.Out → M.State → Prop} {w₀ : World M}
    (hprog : M.prog c = m.bind k) (hnone : w₀.procs p = none)
    (hstart : ∀ s s', M.start p c s = some s' → Q m s')
    (hown : ∀ o f ch s r s', Q (.call o f) s → M.exec p o ch s = some (r, s') → Q (f r) s')
    (hret : ∀ a s, Q (.ret a) s → J (k a) s) (hraise : ∀ e s, J (.raise e) s)
    (hpast : ∀ o f ch s r s', J (.call o f) s → M.exec p o ch s = some (r, s') → J (f r) s')
    (hother : ∀ mv w₁ w₂, M.Reach w₀ w₁ → mv.pid ≠ some p → M.step mv w₁ = some w₂ →
      (∀ n, Q n w₁.shared → Q n w₂.shared) ∧ ∀ n, J n w₁.shared → J n w₂.shared)
    (h : M.Reach w₀ w) : ∀ {prog : Prog S M.Out}, w.procs p = some (c, prog) →
      (∃ w₁ m', Inside M p m w₁ m' w ∧ w₁.procs p = some (c, m.bind k) ∧ Q m' w.shared) ∨
      J prog w.shared := by
  induction h with
  | refl =>
    intro prog hp
    rw [hnone] at hp
    cases hp
  | @tail w₁ w₂ mv hw _ hs ih =>
    intro prog hp
    by_cases hpid : mv.pid = some p
    · rcases Machine.step_cases hs with ⟨q, c', s, rfl, -, hst, rfl⟩ |
        ⟨q, ch, c', o, f, r, s, rfl, hq, he, rfl⟩ |
        ⟨q, c', prog', rfl, -, rfl⟩ | ⟨e, s, rfl, -, rfl⟩
      · -- it begins
        cases hpid
        simp only [Function.update_self, Option.some.injEq, Prod.mk.injEq] at hp
        obtain ⟨rfl, -⟩ := hp
        exact .inl ⟨_, m, .refl, (Function.update_self ..).trans
          (congrArg (fun n => some (c', n)) hprog),
          hstart _ _ hst⟩
      · cases hpid
        simp only [Function.update_self, Option.some.injEq, Prod.mk.injEq] at hp
        obtain ⟨rfl, rfl⟩ := hp
        obtain ⟨w', m', hin, hbegan, hQ⟩ | hJ := ih hq
        · have hsame := hin.procs hbegan
          rw [hq] at hsame
          cases m' with
          | ret a =>
            -- the first call after the part
            have hJ := hret a _ hQ
            rw [show k a = .call o f from (congrArg Prod.snd (Option.some.inj hsame)).symm] at hJ
            exact .inr (hpast o f ch _ r s hJ he)
          | raise e => cases hsame
          | call o' f' =>
            cases hsame
            exact .inl ⟨w', f' r, .own hin he hs, hbegan, hown _ _ ch _ r s hQ he⟩
        · exact .inr (hpast o f ch _ r s hJ he)
      · cases hpid
        simp only [Function.update_self, Option.some.injEq, Prod.mk.injEq] at hp
        obtain ⟨rfl, rfl⟩ := hp
        exact .inr (hraise _ _)
      · cases hpid
    · obtain ⟨hQ, hJ⟩ := hother mv w₁ w₂ hw hpid hs
      rw [Machine.step_procs_other hs hpid] at hp
      obtain ⟨w', m', hin, hbegan, hQ'⟩ | hJ' := ih hp
      · exact .inl ⟨w', m', .other hin hpid hs, hbegan, hQ m' hQ'⟩
      · exact .inr (hJ prog hJ')

end Inside

end Lib
