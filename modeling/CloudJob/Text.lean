import CloudJob.Lib.Discipline
import CloudJob.Uow

/-!
# `Text.lean` — disciplines of programs written with `Uow.lean`

The rule of `async with`, for any discipline, and what the post-commit notification can ask for; and
what is noted of a program that runs alone. -/

set_option autoImplicit false

namespace CloudJob

open Lib

/-! ## One program alone -/

/-- Time passes. -/
def Shared.tick (s : Shared) (d : Nat) : Shared :=
    { s with core := { s.core with clock := s.core.clock + d } }

/-- The messages a call acknowledges. -/
def acknowledges : (o : Op) → Except Exc o.Ret → List Nat
  | .ack id, .ok _ => [id]
  | _, _ => []

/-! ## Rules -/

variable {D : Discipline sig} {α : Type} {R : Except Exc α → D.State → Prop} {q : D.State}

/-- What is left of a unit of work once its body has ended: the exit, which is told how. -/
def Exits (D : Discipline sig) (R : Except Exc α → D.State → Prop) : Except Exc α → D.State → Prop
  | .ok a, q => D.Obeys ((call (.aexit false)).bind fun _ => .ret a) R q
  | .error e, q => D.Obeys ((call (.aexit true)).bind fun _ => .raise e) R q

theorem obeys_withUow {body : Code α} (hok : D.ok q .aenter)
    (hbody : D.may q .aenter (.ok ()) → D.Obeys body (Exits D R) (D.next q .aenter (.ok ())))
    (henter : ∀ e, D.may q .aenter (.error e) → R (.error e) (D.next q .aenter (.error e))) :
    D.Obeys (withUow body) R q := by
  refine .perform hok (fun _ hmay => .bind (.attempt ((hbody hmay).mono fun r q' hr => ?_))) henter
  cases r with
  | ok a => exact hr
  | error e => exact hr

/-- The notification tells Redis, and nobody else. -/
theorem notes_notifyJobStateChanged (n : JobPostCommitNotification) :
    (notifyJobStateChanged n).Asks fun o : Op =>
      (∃ owner, o = .redisInvalidate owner) ∨ ∃ ev, o = .redisPublish ev := by
  unfold notifyJobStateChanged
  refine .bind (.tryCatch (.tryCatch (.perform (.inl ⟨_, rfl⟩)) fun _ => trivial) fun _ => trivial)
    fun _ => ?_
  exact .tryCatch (.perform (.inr ⟨_, rfl⟩)) fun _ => trivial

end CloudJob
