import Mathlib.Data.List.Basic

/-!
# `Lib/Prog.lean` — programs as trees of calls

A program is written down as the tree of the outside calls it can make: at each node it performs
one call, and it continues according to what the call answered — a value, or an exception. Nothing
here says what a call *does*; that is `Lib/Machine.lean`. The split is what lets one program text be
read twice: once against a machine in which many programs are interleaved call by call, and once on
its own, as the set of things it can possibly ask for.

Exceptions are part of the tree rather than a layer over it. Every call may answer with one, the
continuation sees which, and `raise` is a leaf of its own: a `try`/`except` is then a plain
recursion over the tree (`attempt`), and so is a context manager whose exit runs on both ways
out. -/

set_option autoImplicit false

namespace Lib

/-- What a program can ask for: the calls, what each one returns, and what can be raised. -/
structure Sig where
  Op : Type
  Ret : Op → Type
  Exc : Type

/-- A program over the calls of `S`: it has returned, it has raised, or it waits for one call. -/
inductive Prog (S : Sig) (α : Type) : Type where
  | ret (a : α)
  | raise (e : S.Exc)
  | call (o : S.Op) (k : Except S.Exc (S.Ret o) → Prog S α)

namespace Prog

variable {S : Sig} {α β γ : Type}

/-- Sequencing. A raised exception skips what follows. -/
def bind : Prog S α → (α → Prog S β) → Prog S β
  | .ret a, f => f a
  | .raise e, _ => .raise e
  | .call o k, f => .call o fun r => (k r).bind f

/-- The leaf that hands on what a call answered. -/
def ofExcept : Except S.Exc α → Prog S α
  | .ok a => .ret a
  | .error e => .raise e

/-- One call, its answer handed on. -/
def perform (o : S.Op) : Prog S (S.Ret o) := .call o ofExcept

/-- Run to the end and hand on *how* it ended: the body of a `try`. -/
def attempt : Prog S α → Prog S (Except S.Exc α)
  | .ret a => .ret (.ok a)
  | .raise e => .ret (.error e)
  | .call o k => .call o fun r => (k r).attempt

instance : Monad (Prog S) where
  pure := .ret
  bind := bind

/-- `try body except e: handler e`. -/
def tryCatch (body : Prog S α) (handler : S.Exc → Prog S α) : Prog S α :=
  body.attempt.bind fun r => match r with
    | .ok a => .ret a
    | .error e => handler e

@[simp] theorem pure_eq (a : α) : (pure a : Prog S α) = .ret a := rfl

@[simp] theorem bind_eq (m : Prog S α) (f : α → Prog S β) : (m >>= f) = m.bind f := rfl

@[simp] theorem ret_bind (a : α) (f : α → Prog S β) : (Prog.ret a).bind f = f a := rfl

theorem bind_ret : ∀ m : Prog S α, m.bind .ret = m
  | .ret _ => rfl
  | .raise _ => rfl
  | .call o k => congrArg (Prog.call o) (funext fun r => bind_ret (k r))

theorem bind_assoc (f : α → Prog S β) (g : β → Prog S γ) :
    ∀ m : Prog S α, (m.bind f).bind g = m.bind fun a => (f a).bind g
  | .ret _ => rfl
  | .raise _ => rfl
  | .call o k => congrArg (Prog.call o) (funext fun r => bind_assoc f g (k r))

@[simp] theorem raise_bind (e : S.Exc) (f : α → Prog S β) :
    (Prog.raise e : Prog S α).bind f = .raise e := rfl

/-! ## What a program can ask for -/

/-- Every call the program can come to satisfies `ok`. -/
def Asks (ok : S.Op → Prop) : Prog S α → Prop
  | .ret _ => True
  | .raise _ => True
  | .call o k => ok o ∧ ∀ r, (k r).Asks ok

section Asks

variable {ok : S.Op → Prop}

theorem Asks.mono {ok' : S.Op → Prop} (himp : ∀ o, ok o → ok' o) :
    ∀ {m : Prog S α}, m.Asks ok → m.Asks ok'
  | .ret _, _ => trivial
  | .raise _, _ => trivial
  | .call o _, hm => ⟨himp o hm.1, fun r => (hm.2 r).mono himp⟩

theorem Asks.of_true : ∀ m : Prog S α, m.Asks fun _ => True
  | .ret _ => trivial
  | .raise _ => trivial
  | .call _ k => ⟨trivial, fun r => of_true (k r)⟩

theorem Asks.ofExcept : ∀ r : Except S.Exc α, (Prog.ofExcept r : Prog S α).Asks ok
  | .ok _ => trivial
  | .error _ => trivial

theorem Asks.perform {o : S.Op} (h : ok o) : (Prog.perform o).Asks ok := ⟨h, .ofExcept⟩

theorem Asks.bind {f : α → Prog S β} : ∀ {m : Prog S α}, m.Asks ok → (∀ a, (f a).Asks ok) →
    (m.bind f).Asks ok
  | .ret a, _, hf => hf a
  | .raise _, _, _ => trivial
  | .call _ _, hm, hf => ⟨hm.1, fun r => (hm.2 r).bind hf⟩

theorem Asks.attempt : ∀ {m : Prog S α}, m.Asks ok → m.attempt.Asks ok
  | .ret _, _ => trivial
  | .raise _, _ => trivial
  | .call _ _, hm => ⟨hm.1, fun r => (hm.2 r).attempt⟩

theorem Asks.tryCatch {m : Prog S α} {handler : S.Exc → Prog S α} (hm : m.Asks ok)
    (hh : ∀ e, (handler e).Asks ok) : (m.tryCatch handler).Asks ok := by
  refine hm.attempt.bind fun r => ?_
  cases r with
  | ok a => trivial
  | error e => exact hh e

theorem Asks.ite {c : Prop} [Decidable c] {m m' : Prog S α} (h : m.Asks ok) (h' : m'.Asks ok) :
    (if c then m else m').Asks ok := by
  split
  · exact h
  · exact h'

end Asks

/-! ## One program alone -/

/-- Run to the end on a state of its own, with a handler that answers every call. -/
def eval {σ : Type} (handler : (o : S.Op) → σ → Except S.Exc (S.Ret o) × σ) :
    Prog S α → σ → Except S.Exc α × σ
  | .ret a, s => (.ok a, s)
  | .raise e, s => (.error e, s)
  | .call o k, s => (k (handler o s).1).eval handler (handler o s).2

section Eval

variable {σ : Type} {handler : (o : S.Op) → σ → Except S.Exc (S.Ret o) × σ}

@[simp] theorem eval_ret (a : α) (s : σ) : (Prog.ret a : Prog S α).eval handler s = (.ok a, s) :=
    rfl

@[simp] theorem eval_raise (e : S.Exc) (s : σ) :
    (Prog.raise e : Prog S α).eval handler s = (.error e, s) := rfl

theorem eval_bind (f : α → Prog S β) : ∀ (m : Prog S α) (s : σ), (m.bind f).eval handler s =
    match m.eval handler s with
    | (.ok a, s') => (f a).eval handler s'
    | (.error e, s') => (.error e, s')
  | .ret _, _ => rfl
  | .raise _, _ => rfl
  | .call o k, s => eval_bind f (k (handler o s).1) (handler o s).2

theorem eval_attempt : ∀ (m : Prog S α) (s : σ), m.attempt.eval handler s =
    (.ok (m.eval handler s).1, (m.eval handler s).2)
  | .ret _, _ => rfl
  | .raise _, _ => rfl
  | .call o k, s => eval_attempt (k (handler o s).1) (handler o s).2

/-- What every call keeps that the program asks for, the program keeps. -/
theorem eval_keeps {ok : S.Op → Prop} {I : σ → Prop}
    (hcall : ∀ o s, ok o → I s → I (handler o s).2) :
    ∀ (m : Prog S α) (s : σ), m.Asks ok → I s → I (m.eval handler s).2
  | .ret _, _, _, hs => hs
  | .raise _, _, _, hs => hs
  | .call o k, s, hm, hs => eval_keeps hcall (k (handler o s).1) _ (hm.2 _) (hcall o s hm.1 hs)

theorem eval_ofExcept (r : Except S.Exc α) (s : σ) :
    (Prog.ofExcept r : Prog S α).eval handler s = (r, s) := by
  cases r <;> rfl

theorem eval_perform (o : S.Op) (s : σ) : (Prog.perform o).eval handler s = handler o s :=
  eval_ofExcept (handler o s).1 (handler o s).2

/-- A handler that takes notes of what it is asked, and answers as before. -/
def noting {γ : Type} (handler : (o : S.Op) → σ → Except S.Exc (S.Ret o) × σ)
    (note : S.Op → σ → γ → γ) (o : S.Op) (x : σ × γ) : Except S.Exc (S.Ret o) × (σ × γ) :=
  ((handler o x.1).1, ((handler o x.1).2, note o x.1 x.2))

end Eval

/-- Run to the end with a handler that may have no answer. -/
def drive {σ : Type} (handler : (o : S.Op) → σ → Option (Except S.Exc (S.Ret o) × σ)) :
    Prog S α → σ → Option (Except S.Exc α × σ)
  | .ret a, s => some (.ok a, s)
  | .raise e, s => some (.error e, s)
  | .call o k, s => match handler o s with
    | some (r, s') => (k r).drive handler s'
    | none => none

theorem drive_call {σ : Type} {handler : (o : S.Op) → σ → Option (Except S.Exc (S.Ret o) × σ)}
    {o : S.Op} {k : Except S.Exc (S.Ret o) → Prog S α} {s s' : σ} {r : Except S.Exc α}
    (h : (Prog.call o k).drive handler s = some (r, s')) :
    ∃ ro s₁, handler o s = some (ro, s₁) ∧ (k ro).drive handler s₁ = some (r, s') := by
  rw [drive] at h
  split at h
  · exact ⟨_, _, ‹_›, h⟩
  · cases h

section Drive

variable {σ : Type} {handler : (o : S.Op) → σ → Option (Except S.Exc (S.Ret o) × σ)}

/-- Sequencing: the first part raises and that is all, or returns and the second part runs. -/
theorem drive_bind {f : α → Prog S β} {r : Except S.Exc β} {s'' : σ} : ∀ {m : Prog S α} {s : σ},
    (m.bind f).drive handler s = some (r, s'') →
      (∃ e, m.drive handler s = some (.error e, s'') ∧ r = .error e) ∨
      ∃ a s', m.drive handler s = some (.ok a, s') ∧ (f a).drive handler s' = some (r, s'')
  | .ret a, s, h => .inr ⟨a, s, rfl, h⟩
  | .raise e, s, h => by
    cases h
    exact .inl ⟨e, rfl, rfl⟩
  | .call o k, s, h => by
    obtain ⟨ro, s₁, ho, h⟩ := drive_call h
    have hcall : (Prog.call o k).drive handler s = (k ro).drive handler s₁ := by rw [drive, ho]
    rw [hcall]
    exact drive_bind h

theorem drive_attempt : ∀ (m : Prog S α) (s : σ),
    m.attempt.drive handler s = (m.drive handler s).map fun x => (.ok x.1, x.2)
  | .ret _, _ => rfl
  | .raise _, _ => rfl
  | .call o k, s => by
    simp only [attempt, drive]
    cases handler o s with
    | none => rfl
    | some x => exact drive_attempt (k x.1) x.2

/-- What every call keeps, the program keeps. -/
theorem drive_keeps {ok : S.Op → Prop} {I : σ → Prop}
    (hcall : ∀ {o x r y}, ok o → handler o x = some (r, y) → I x → I y) :
    ∀ {m : Prog S α} {s s' : σ} {r : Except S.Exc α}, m.Asks ok → m.drive handler s = some (r, s') →
      I s → I s'
  | .ret _, _, _, _, _, h, hs => by
    cases h
    exact hs
  | .raise _, _, _, _, _, h, hs => by
    cases h
    exact hs
  | .call _ _, _, _, _, hm, h, hs => by
    obtain ⟨ro, s₁, ho, h⟩ := drive_call h
    exact drive_keeps hcall (hm.2 ro) h (hcall hm.1 ho hs)

end Drive

end Prog

end Lib
