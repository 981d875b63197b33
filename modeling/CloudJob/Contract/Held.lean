import CloudJob.Contract.Steps

/-!
# `Contract/Held.lean` — a program's own knowledge, and the rule for each call

`Held P p g c s` is what a program has established at a point of its text. `g` is the shape of its
transaction — which rows it locked, which statements it staged, what its clock readings and uuids
are — and `c` is the durable state as it was when the last lock was taken. Everything the program
has *read* is a fact about `c`, and `c` does not move: others may commit between any two calls, but
only in ways that `Keeps` what is locked. So a fact is carried across a call for free, and moved
(from `c` to the present) exactly once, at the commit.

Below, one rule for each call: what must be known before, and what is known in each way it can go.
-/

set_option autoImplicit false

namespace CloudJob

open Lib

/-- The shape of a transaction. -/
structure Ghost where
  call : Call
  rows : List LockRow
  staged : List Stmt
  readings : List Datetime
  own : List Uuid

/-- Outside of a transaction. -/
def Ghost.idle (g : Ghost) : Ghost := { g with rows := [], staged := [] }

structure Held (P : Params) (p : Pid) (g : Ghost) (c : Core) (s : Shared) : Prop where
  origin : Lawful P c
  called : s.calls p = some g.call
  locks : ∀ r, s.locks r = some p ↔ r ∈ g.rows
  staged : s.staged p = g.staged
  reads : ∀ t ∈ g.readings, P.ReadBy s.core.clock t
  own : ∀ u ∈ g.own, s.uuidOwner u = some p ∧ OwnKept u c s.core
  keeps : Keeps (· ∈ g.rows) c s.core

variable {P : Params} {p : Pid} {g : Ghost} {c : Core} {s s' : Shared} {α β : Type}

theorem Held.rely (h : Held P p g c s) (hr : Rely p s s') : Held P p g c s' where
  origin := h.origin
  called := hr.calls.trans h.called
  locks r := (hr.locks r).trans (h.locks r)
  staged := hr.staged.trans h.staged
  reads t ht := (h.reads t ht).mono hr.keeps.clock
  own u hu := ⟨hr.uuids (h.own u hu).1, (h.own u hu).2.trans (hr.own (h.own u hu).1)⟩
  keeps := h.keeps.trans (hr.keeps.mono fun r hm => (h.locks r).mpr hm)

/-- Start over from the present. -/
theorem Held.rebase (h : Held P p g c s) (hi : Inv P s) : Held P p g s.core s where
  origin := hi.lawful
  called := h.called
  locks := h.locks
  staged := h.staged
  reads := h.reads
  own u hu := ⟨(h.own u hu).1, .refl _ _⟩
  keeps := .refl _

theorem Held.holdsNothing (h : Held P p g c s) (hr : g.rows = []) : s.HoldsNothing p := by
  intro r hl
  rw [h.locks, hr] at hl
  cases hl

theorem Held.free (h : Held P p g c s) {r : LockRow} (hr : r ∈ g.rows) : s.free p r = true := by
  simp [Shared.free, (h.locks r).mpr hr]

/-- The message a process handles is the one it was called with. -/
theorem Held.handling (h : Held P p g c s) {m : Message} (hm : s.handling p = some m) :
    ∃ settings w, g.call = .handleMessage settings w m := by
  rw [Shared.handling, h.called] at hm
  cases hc : g.call with
  | handleMessage settings w m' =>
    rw [hc] at hm
    cases hm
    exact ⟨settings, w, rfl⟩
  | _ =>
    rw [hc] at hm
    cases hm

theorem Held.handles (h : Held P p g c s) {settings : Settings} {w : String} {m : Message}
    (hc : g.call = .handleMessage settings w m) : s.handling p = some m := by
  rw [Shared.handling, h.called, hc]

theorem Held.view (h : Held P p g c s) : s.view p = s.core.db.applyAll g.staged := by
  rw [Shared.view, h.staged]

/-- Where a process is started. -/
theorem Held.start {call : Call} (hi : Inv P s) (h : s.start P p call = some s') :
    Held P p ⟨call, [], [], [], []⟩ s'.core s' := by
  have hi' := (hi.start h).1
  unfold Shared.start at h
  split at h
  · cases h
    refine ⟨hi'.lawful, Function.update_self .., fun r =>
      ?_, Shared.staged_release_self, nofun, nofun,
      .refl _⟩
    exact ⟨fun hl => absurd hl (Shared.locks_release_self r), nofun⟩
  · cases h

/-- The process is somewhere in a transaction, or in none: what is left to know after an
exception. -/
def Somewhere (P : Params) (p : Pid) (call : Call) (s : Shared) : Prop :=
  ∃ g c, Held P p g c s ∧ g.call = call

theorem Held.somewhere (h : Held P p g c s) : Somewhere P p g.call s := ⟨g, c, h, rfl⟩

/-! ## What lasts -/

/-- A call only adds to the durable state. -/
theorem CallEffect.extends {o : Op} (h : CallEffect p o s s') : s.core.Extends s'.core := by
  have htables : ∀ {c c' : Core}, SameTables c c' → c.Extends c' := fun hs =>
    (Keeps.of_sameTables (L := fun _ => False) hs nofun).toExtends
  have hspend : ∀ x : Shared, x.core.Extends (x.spend p).core := by
    intro x
    rcases x.spend_cases p with hs | ⟨m, -, hs⟩
    · rw [hs]
      exact .refl _
    · rw [hs]
      exact htables (.spend _ _)
  cases h with
  | committed => exact .commit _ _ _
  | committedAnswered =>
    exact (Core.Extends.commit s.core p (s.staged p)).trans
      (hspend (Shared.release { s with core := s.core.commit p (s.staged p) } p))
  | left => exact hspend (s.release p)
  | sent => exact htables (.of_db rfl le_rfl rfl fun _ h => h)
  | dropped => exact htables (.of_db rfl le_rfl rfl fun _ h => h)
  | started => exact htables (.record rfl)
  | noted ev ho => exact htables (.record (Core.committed_note _ _ (Op.notes_cases ho)))
  | nothing => exact .refl _
  | drew => exact .refl _
  | locked => exact .refl _
  | wrote => exact .refl _
  | released => exact .refl _

/-- **The frame rule.** What can only become true of the durable state is still true when a program
ends. -/
theorem safe_lasting {M : Core → Prop} (hM : ∀ {c c' : Core}, c.Extends c' → M c → M c')
    {Q : Except Exc α → Shared → Prop} : ∀ {prog : Code α} {s : Shared},
    (contract P).Safe p prog Q s →
      M s.core → (contract P).Safe p prog (fun r s' => M s'.core ∧ Q r s') s
  | .ret _, _, h, hm => fun s' hi hr => ⟨hM hr.keeps.toExtends hm, h s' hi hr⟩
  | .raise _, _, h, hm => fun s' hi hr => ⟨hM hr.keeps.toExtends hm, h s' hi hr⟩
  | .call _ _, _, h, hm => fun s' hi hr => ⟨(h s' hi hr).1, fun c r s'' hc he =>
      safe_lasting hM ((h s' hi hr).2 c r s'' hc he)
        (hM (exec_effect he).extends (hM hr.keeps.toExtends hm))⟩

/-! ## Ends -/

theorem Held.ret {a : α} {Q : Except Exc α → Shared → Prop} (h : Held P p g c s)
    (hq : ∀ s', Inv P s' → Held P p g c s' → Q (.ok a) s') : (contract P).Safe p (.ret a) Q s :=
  fun s' hi hr => hq s' hi (h.rely hr)

theorem Held.raise {e : Exc} {Q : Except Exc α → Shared → Prop} (h : Held P p g c s)
    (hq : ∀ s', Inv P s' → Held P p g c s' → Q (.error e) s') :
    (contract P).Safe p (.raise e) Q s :=
  fun s' hi hr => hq s' hi (h.rely hr)

/-- Any call, with what is known before it. -/
theorem Held.perform {o : Op} {f : o.Ret → Code β} {Q : Except Exc β → Shared → Prop}
    (h : Held P p g c s) (hpre : ∀ s', Inv P s' → Held P p g c s' → Pre P p o s')
    (hk : ∀ s' ch r s'', Inv P s' → Held P p g c s' → Inv P s'' →
      s'.exec P.reads p o ch = some (r, s'') →
      match r with
      | .ok a => (contract P).Safe p (f a) Q s''
      | .error e => (contract P).Safe p (.raise e) Q s'') :
    (contract P).Safe p ((call o).bind f) Q s := by
  refine Protocol.Safe.call_bind fun s' hi hr => ?_
  have hpre' := hpre s' hi (h.rely hr)
  refine ⟨hpre', fun ch r s'' hm he => ?_⟩
  have hres := hk s' ch r s'' hi (h.rely hr) ((contract P).step_ok hi hpre' hm he).1 he
  cases r with
  | ok a => exact hres
  | error e => exact hres

end CloudJob
