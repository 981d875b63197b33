import Mathlib.Logic.Relation

/-!
# `Lib/Circle.lean` — closed walks of a relation

A relation has a circle where its transitive closure relates something to itself. Every step of a
circle is followed and preceded by one (`OnCircle.round`), so a new step closes none where nothing
leads to its start, or nothing leads on from its end (`no_circle_of_new`). -/

set_option autoImplicit false

namespace Lib

open Relation

variable {α : Type*} {r r' : α → α → Prop} {a b : α}

/-- A step from which there is a way back. -/
def OnCircle (r : α → α → Prop) (a b : α) : Prop := r a b ∧ ReflTransGen r b a

/-- On a circle something leads to where a step starts, and the step leads on. -/
theorem OnCircle.round (h : OnCircle r a b) : (∃ z, OnCircle r z a) ∧ ∃ x, OnCircle r b x := by
  obtain ⟨hab, hba⟩ := h
  constructor
  · obtain rfl | ⟨z, hbz, hza⟩ := hba.cases_tail
    · exact ⟨a, hab, .refl⟩
    · exact ⟨z, hza, .head hab hbz⟩
  · obtain rfl | ⟨x, hbx, hxa⟩ := hba.cases_head
    · exact ⟨b, hab, .refl⟩
    · exact ⟨x, hbx, hxa.tail hab⟩

/-- A circle is one of whatever all its steps are steps of. -/
theorem circle_of_onCircle (himp : ∀ a b, OnCircle r a b → r' a b) (h : TransGen r a a) :
    TransGen r' a a := by
  have hall : ∀ {b}, TransGen r a b → ReflTransGen r b a → TransGen r' a b := by
    intro b hab
    induction hab with
    | single hab => exact fun hba => .single (himp _ _ ⟨hab, hba⟩)
    | tail hab hbc ih =>
      intro hca
      have hcb := hca.trans hab.to_reflTransGen
      exact (ih (.head hbc hca)).tail (himp _ _ ⟨hbc, hcb⟩)
  exact hall h .refl

/-- Where each new step starts at what nothing leads to, or ends at what leads nowhere, there is no
new circle. -/
theorem no_circle_of_new (hnew : ∀ a b, r' a b → r a b ∨ (∀ x, ¬ r' x a) ∨ ∀ y, ¬ r' b y)
    (h : ∀ a, ¬ TransGen r a a) (a : α) : ¬ TransGen r' a a := by
  intro hcircle
  refine h a (circle_of_onCircle (fun a b hab => ?_) hcircle)
  obtain ⟨⟨z, hza, -⟩, x, hbx, -⟩ := hab.round
  rcases hnew a b hab.1 with hold | hno | hno
  · exact hold
  · exact absurd hza (hno z)
  · exact absurd hbx (hno x)

end Lib
