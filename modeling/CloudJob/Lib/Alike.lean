import CloudJob.Lib.Prog

/-!
# `Lib/Alike.lean` — programs that differ in calls that decide nothing

Two programs are `Alike` if they make the same calls, go on in the same way after the same answers,
and end in the same way, but for calls that are `hidden`: each makes its own of these, and whatever
they answer, as long as it is one of the answers `may` considers, the rest is alike. Such programs
cannot be told apart by what the other calls do (`Alike.drive`).

A program is not always alike to itself. It is where it makes no hidden call, and where every hidden
call of it is inside a part that `Hides` them: a part that returns the same value however they are
answered. -/

set_option autoImplicit false

namespace Lib

namespace Prog

variable {S : Sig} {α β : Type} {hidden : S.Op → Prop}
  {may : (o : S.Op) → Except S.Exc (S.Ret o) → Prop}

inductive Alike (hidden : S.Op → Prop) (may : (o : S.Op) → Except S.Exc (S.Ret o) → Prop) :
    Prog S α → Prog S α → Prop where
  | ret (a : α) : Alike hidden may (.ret a) (.ret a)
  | raise (e : S.Exc) : Alike hidden may (.raise e) (.raise e)
  | both {o : S.Op} {k k' : Except S.Exc (S.Ret o) → Prog S α} : ¬ hidden o →
      (∀ r, Alike hidden may (k r) (k' r)) → Alike hidden may (.call o k) (.call o k')
  | left {o : S.Op} {k : Except S.Exc (S.Ret o) → Prog S α} {m : Prog S α} : hidden o →
      (∀ r, may o r → Alike hidden may (k r) m) → Alike hidden may (.call o k) m
  | right {o : S.Op} {k : Except S.Exc (S.Ret o) → Prog S α} {m : Prog S α} : hidden o →
      (∀ r, may o r → Alike hidden may m (k r)) → Alike hidden may m (.call o k)

namespace Alike

/-- Without hidden calls. -/
theorem of_asks : ∀ {m : Prog S α}, m.Asks (fun o => ¬ hidden o) → Alike hidden may m m
  | .ret a, _ => .ret a
  | .raise e, _ => .raise e
  | .call _ _, h => .both h.1 fun r => of_asks (h.2 r)

theorem bind {f f' : α → Prog S β} {m m' : Prog S α} (h : Alike hidden may m m')
    (hf : ∀ a, Alike hidden may (f a) (f' a)) : Alike hidden may (m.bind f) (m'.bind f') := by
  induction h with
  | ret a => exact hf a
  | raise e => exact .raise e
  | both hno _ ih => exact .both hno ih
  | left ho _ ih => exact .left ho ih
  | right ho _ ih => exact .right ho ih

theorem attempt {m m' : Prog S α} (h : Alike hidden may m m') :
    Alike hidden may m.attempt m'.attempt := by
  induction h with
  | ret a => exact .ret _
  | raise e => exact .ret _
  | both hno _ ih => exact .both hno ih
  | left ho _ ih => exact .left ho ih
  | right ho _ ih => exact .right ho ih

theorem ite {c : Prop} [Decidable c] {m₁ m₁' m₂ m₂' : Prog S α} (h₁ : Alike hidden may m₁ m₁')
    (h₂ : Alike hidden may m₂ m₂') : Alike hidden may (if c then m₁ else m₂) (if c then
      m₁' else m₂') := by
  split
  · exact h₁
  · exact h₂

theorem perform {o : S.Op} (h : ¬ hidden o) : Alike hidden may (perform o) (perform o) :=
  of_asks (.perform h)

/-- A hidden call that returns: what follows must not depend on what. -/
theorem bind_hidden {o : S.Op} {f f' : S.Ret o → Prog S α} (ho : hidden o)
    (hreturns : ∀ e, ¬ may o (.error e)) (hf : ∀ a a', Alike hidden may (f a) (f' a')) :
    Alike hidden may ((Prog.perform o).bind f) ((Prog.perform o).bind f') := by
  refine .left ho fun r hr => .right ho fun r' hr' => ?_
  cases r with
  | error e => exact absurd hr (hreturns e)
  | ok a => cases r' with
    | error e => exact absurd hr' (hreturns e)
    | ok a' => exact hf a a'

end Alike

/-- All its calls are hidden, and it returns `a`, whatever they answer. -/
def Hides (hidden : S.Op → Prop) (may : (o : S.Op) → Except S.Exc (S.Ret o) → Prop) (a : α) :
    Prog S α → Prop
  | .ret b => b = a
  | .raise _ => False
  | .call o k => hidden o ∧ ∀ r, may o r → Hides hidden may a (k r)

/-- A `try` around hidden calls whose exceptions are dropped. -/
theorem Hides.suppress : ∀ {m : Prog S Unit}, m.Asks hidden →
    (m.tryCatch fun _ => .ret ()).Hides hidden may ()
  | .ret _, _ => rfl
  | .raise _, _ => rfl
  | .call _ _, h => ⟨h.1, fun r _ => Hides.suppress (h.2 r)⟩

theorem Alike.of_hides_right {a : α} : ∀ {m : Prog S α}, m.Hides hidden may a →
    Alike hidden may (.ret a) m
  | .ret _, h => by
    cases h
    exact .ret a
  | .raise _, h => h.elim
  | .call _ _, h => .right h.1 fun r hr => of_hides_right (h.2 r hr)

theorem Alike.of_hides {a : α} {m' : Prog S α} (h' : m'.Hides hidden may a) :
    ∀ {m : Prog S α}, m.Hides hidden may a → Alike hidden may m m'
  | .ret _, h => by
    cases h
    exact .of_hides_right h'
  | .raise _, h => h.elim
  | .call _ _, h => .left h.1 fun r hr => of_hides h' (h.2 r hr)

/-! ## Two runs -/

section Drive

variable {σ σ' : Type} {handler : (o : S.Op) → σ → Option (Except S.Exc (S.Ret o) × σ)}
  {handler' : (o : S.Op) → σ' → Option (Except S.Exc (S.Ret o) × σ')} {good : σ → Prop}
  {good' : σ' → Prop} {I : σ → σ' → Prop}

/-- What was good at the end was good from the start, if nothing that is not good gets better. -/
theorem drive_good (hback : ∀ {o x r y}, handler o x = some (r, y) → good y → good x) :
    ∀ {m : Prog S α} {x y : σ} {r : Except S.Exc α}, m.drive handler x = some (r, y) →
    good y → good x
  | .ret _, _, _, _, hd, hg => by
    cases hd
    exact hg
  | .raise _, _, _, _, hd, hg => by
    cases hd
    exact hg
  | .call _ _, _, _, _, hd, hg => by
    obtain ⟨_, _, hx, hd⟩ := drive_call hd
    exact hback hx (drive_good hback hd hg)

/-- **Two runs of alike programs** that start in related states end the same way and in related
states: if a call that is not hidden is answered alike in related states, and a hidden one does not
undo the relation. -/
theorem Alike.drive (hback : ∀ {o x r y}, handler o x = some (r, y) → good y → good x)
    (hback' : ∀ {o x r y}, handler' o x = some (r, y) → good' y → good' x)
    (hboth : ∀ {o x x' r r' y y'}, ¬ hidden o → I x x' → handler o x = some (r, y) →
      handler' o x' = some (r', y') → r = r' ∧ I y y')
    (hleft : ∀ {o x x' r y}, hidden o → I x x' → handler o x = some (r, y) → good y →
      may o r ∧ I y x')
    (hright : ∀ {o x x' r y}, hidden o → I x x' → handler' o x' = some (r, y) → good' y →
      may o r ∧ I x y)
    {m m' : Prog S α} (h : Alike hidden may m m') :
      ∀ {x y : σ} {x' y' : σ'} {r r' : Except S.Exc α},
    I x x' → m.drive handler x = some (r, y) → m'.drive handler' x' = some (r', y') →
      good y → good' y' →
    r = r' ∧ I y y' := by
  induction h with
  | ret a =>
    intro x y x' y' r r' hI hd hd' _ _
    cases hd
    cases hd'
    exact ⟨rfl, hI⟩
  | raise e =>
    intro x y x' y' r r' hI hd hd' _ _
    cases hd
    cases hd'
    exact ⟨rfl, hI⟩
  | both hno _ ih =>
    intro x y x' y' r r' hI hd hd' hg hg'
    obtain ⟨ro, z, hz, hd⟩ := drive_call hd
    obtain ⟨ro', z', hz', hd'⟩ := drive_call hd'
    obtain ⟨rfl, hI⟩ := hboth hno hI hz hz'
    exact ih ro hI hd hd' hg hg'
  | left ho _ ih =>
    intro x y x' y' r r' hI hd hd' hg hg'
    obtain ⟨ro, z, hz, hd⟩ := drive_call hd
    obtain ⟨hmay, hI⟩ := hleft ho hI hz (drive_good hback hd hg)
    exact ih ro hmay hI hd hd' hg hg'
  | right ho _ ih =>
    intro x y x' y' r r' hI hd hd' hg hg'
    obtain ⟨ro, z, hz, hd'⟩ := drive_call hd'
    obtain ⟨hmay, hI⟩ := hright ho hI hz (drive_good hback' hd' hg')
    exact ih ro hmay hI hd hd' hg hg'

end Drive

end Prog

end Lib
