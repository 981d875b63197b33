import CloudJob.Contract.Writes

/-!
# `Contract/Uow.lean` — the unit of work as a block

`async with` is a block with an obligation at its end: leaving it without an exception spends the
message the process handles, so what is known at that point must allow it. Leaving it with one ends
the transaction and hands the exception on. -/

set_option autoImplicit false

namespace CloudJob

open Lib

variable {P : Params} {p : Pid} {g : Ghost} {c : Core} {s s' : Shared} {α β : Type}

/-- How the body of a unit of work ends: with `B`, or with an exception in `E`, inside whatever
transaction it was in. -/
def UowPost (P : Params) (p : Pid) (op : Call) (B : α → Shared → Prop)
    (E : Exc → Ghost → Core → Prop) : Except Exc α → Shared → Prop
  | .ok a, s => B a s
  | .error e, s => ∃ g c, Held P p g c s ∧ g.call = op ∧ E e g c

theorem Somewhere.raised {B : α → Shared → Prop} {E : Exc → Ghost → Core → Prop}
    {op : Call} {e : Exc}
    (h : Somewhere P p op s) (he : ∀ g c, E e g c) : UowPost P p op B E (.error e) s := by
  obtain ⟨g, c, hh, hc⟩ := h
  exact ⟨g, c, hh, hc, he g c⟩

theorem Held.withUow {body : Code α} {Q : Except Exc α → Shared → Prop} {B : α → Shared → Prop}
    {E : Exc → Ghost → Core → Prop} (h : Held P p g c s) (hr : g.rows = []) (hst : g.staged = [])
    (hext : ∀ {e e' g c}, E e g c → e'.isExternal = true → E e' g c)
    (herr : ∀ e g' c' s', E e g' c' → Held P p g'.idle c' s' → g'.call = g.call → Q (.error e) s')
    (hbody : ∀ s', Held P p g c s' → (contract P).Safe p body (UowPost P p g.call B E) s')
    (hok : ∀ a s', Inv P s' → B a s' →
      (contract P).Safe p ((call (.aexit false)).bind fun _ => .ret a) Q s') :
    (contract P).Safe p (CloudJob.withUow body) Q s := by
  refine h.aenter hr hst fun s₁ h₁ => Protocol.Safe.bind (Protocol.Safe.attempt ?_)
  refine (hbody s₁ h₁).mono fun r s₂ hi hpost => ?_
  cases r with
  | ok a => exact hok a s₂ hi hpost
  | error e =>
    obtain ⟨g', c', h₂, hcall, he⟩ := hpost
    refine h₂.aexitTrue (fun s₃ h₃ => h₃.raise fun s₄ _ h₄ => herr e g' c' s₄ he h₄ hcall) ?_
    exact fun e' s₃ he' _ h₃ => herr e' g' c' s₃ (hext he he') h₃ hcall

/-- A process that handles no message spends none. -/
theorem Held.spendOk (h : Held P p g c s) (hcall : ∀ settings w m,
    g.call ≠ .handleMessage settings w m) (db : Db) : SpendOk s p db := by
  intro m hm
  rw [Shared.handling, h.called] at hm
  cases hc : g.call with
  | handleMessage settings w m' => exact absurd hc (hcall settings w m')
  | _ => rw [hc] at hm; cases hm

/-- The commit of such a process: what is staged must be an action where the locks have kept what
was read. -/
theorem Held.commitAction {f : Unit → Code β} {Q : Except Exc β → Shared → Prop}
    (h : Held P p g c s) (hcall : ∀ settings w m, g.call ≠ .handleMessage settings w m)
    (htxn : ∀ c', Keeps (· ∈ g.rows) c c' → (∀ t ∈ g.readings, P.ReadBy c'.clock t) →
      Action P c' g.staged)
    (hok : ∀ s', Held P p g.idle s'.core s' → (contract P).Safe p (f ()) Q s')
    (herr : ∀ e s', e.isExternal = true → Somewhere P p g.call s' → Q (.error e) s') :
    (contract P).Safe p ((call .commit).bind f) Q s :=
  h.commit (fun _ _ h₁ => .action (htxn _ h₁.keeps h₁.reads)) (fun _ _ h₁ => h₁.spendOk hcall _)
    (fun _ _ ⟨settings, w, m, hc⟩ => absurd hc (hcall settings w m))
    (fun _ s₂ _ _ _ _ _ h₂ => hok s₂ h₂) herr

/-- The end of a unit of work in such a process. -/
theorem Held.leave {a : α} {Q : Except Exc α → Shared → Prop} (h : Held P p g c s)
    (hcall : ∀ settings w m, g.call ≠ .handleMessage settings w m)
    (hok : ∀ s', Inv P s' → Held P p g.idle c s' → Q (.ok a) s')
    (herr : ∀ e s', e.isExternal = true → Somewhere P p g.call s' → Q (.error e) s') :
    (contract P).Safe p ((call (.aexit false)).bind fun _ => .ret a) Q s :=
  h.aexitFalse (fun _ _ hh => hh.spendOk hcall _) (fun _ _ _ h₁ => h₁.ret hok)
    fun e s₁ he _ h₁ => herr e s₁ he h₁.somewhere

end CloudJob
