import CloudJob.Lib.Observer
import Mathlib.Logic.Relation

/-!
# `Lib/Simulation.lean` — a machine seen as an abstract system

A view of the worlds of a machine refines a transition relation where every step of the machine is,
in the view, a step of the relation or nothing at all. A run is then a run of the relation; and
where the relation runs down a rank, the view changes no more often than the rank allows. -/

set_option autoImplicit false

namespace Lib

variable {S : Sig} {M : Machine S} {A : Type}

/-- In the worlds of `I`, every step that satisfies `ok` is a step of `next` in the view, or
none. -/
structure Machine.Refines (M : Machine S) (ok : World M → Move M → Prop) (I : World M → Prop)
    (next : A → A → Prop) (view : World M → A) : Prop where
  keeps : ∀ {w m w'}, I w → ok w m → M.step m w = some w' → I w'
  step : ∀ {w m w'}, I w → ok w m → M.step m w = some w' → view w' = view w ∨
    next (view w) (view w')

/-- How often the view has changed. -/
def changes [DecidableEq A] (view : World M → A) : Notes M Nat :=
  fun w _ w' n => if view w' = view w then n else n + 1

namespace Machine.Refines

variable {ok : World M → Move M → Prop} {I : World M → Prop} {next : A → A → Prop}
  {view : World M → A} {w w' : World M}

/-- A run is a run of the abstract system. -/
theorem run (h : M.Refines ok I next view) (hi : I w) (hr : M.ReachBy ok w w') :
    I w' ∧ Relation.ReflTransGen next (view w) (view w') := by
  refine hr.invariant (I := fun w₁ => I w₁ ∧ Relation.ReflTransGen next (view w) (view w₁))
    ⟨hi, .refl⟩
    fun w₁ w₂ m hI hok hs => ⟨h.keeps hI.1 hok hs, ?_⟩
  obtain hsame | hnext := h.step hI.1 hok hs
  · rw [hsame]
    exact hI.2
  · exact hI.2.tail hnext

/-- A view that runs down a rank changes no more often than the rank allows. -/
theorem changes_add_rank_le [DecidableEq A] {rank : A → Nat}
    (h : M.Refines ok I next view) (hi : I w)
    (hrank : ∀ {a b}, next a b → rank b < rank a) {n : Nat}
    (hr : M.ObservedBy ok (changes view) w 0 w' n) : n + rank (view w') ≤ rank (view w) := by
  refine (hr.invariant (I := fun w₁ k => I w₁ ∧ k + rank (view w₁) ≤ rank (view w)) ⟨hi, by omega⟩
    fun w₁ w₂ k m hI hok hs => ⟨h.keeps hI.1 hok hs, ?_⟩).2
  have hle := hI.2
  unfold changes
  split
  · rename_i hsame
    rw [hsame]
    exact hle
  · rename_i hchange
    have hlt := hrank ((h.step hI.1 hok hs).resolve_left hchange)
    omega

end Machine.Refines

end Lib
