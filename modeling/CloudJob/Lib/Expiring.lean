import Mathlib.Logic.Function.Basic

/-!
# `Lib/Expiring.lean` — a store whose entries end

Keys with values, each entry kept for ever or up to and including some time. Nothing removes an
entry when its time comes: it is there until then for whoever asks, and after that it is as if it
were not. Every operation therefore takes the time it happens at.

The counters are those of a store in which an absent key counts as zero: `incr` creates it without
an end, and an existing one keeps the end it has. -/

set_option autoImplicit false

namespace Lib

structure Timed (β : Type) where
  value : β
  /-- The last time at which it can be read; `none` is never. -/
  expiresAt : Option Int

/-- Whether an entry can be read. -/
def Timed.isLive {β : Type} (now : Int) (e : Timed β) : Bool := e.expiresAt.all fun t =>
    decide (now ≤ t)

abbrev Expiring (κ β : Type) := κ → Option (Timed β)

namespace Expiring

variable {κ β : Type} (s : Expiring κ β) (now : Int) (k : κ)

/-- The entry, if there still is one. -/
def entry : Option (Timed β) := (s k).filter (Timed.isLive now)

def get : Option β := (s.entry now k).map Timed.value

section Write

variable [DecidableEq κ]

def put (v : β) (expiresAt : Option Int) : Expiring κ β := Function.update s k (some ⟨v, expiresAt⟩)

def del : Expiring κ β := Function.update s k none

/-- Give the entry another end; one that is gone stays gone. -/
def expire (expiresAt : Int) : Expiring κ β :=
  match s.entry now k with
  | some e => s.put k e.value (some expiresAt)
  | none => s

end Write

section Counter

variable {κ : Type} [DecidableEq κ] (s : Expiring κ Nat) (now : Int) (k : κ)

def incr : Nat × Expiring κ Nat :=
  match s.entry now k with
  | some e => (e.value + 1, s.put k (e.value + 1) e.expiresAt)
  | none => (1, s.put k 1 none)

/-- For a counter that is at least one. -/
def decr : Nat × Expiring κ Nat :=
  match s.entry now k with
  | some e => (e.value - 1, s.put k (e.value - 1) e.expiresAt)
  | none => (0, s)

end Counter

variable {s now k} {k' : κ} {e : Timed β}

theorem isLive_iff : e.isLive now = true ↔ ∀ t, e.expiresAt = some t → now ≤ t := by
  unfold Timed.isLive
  cases e.expiresAt with
  | none => simp
  | some t => simp

theorem entry_eq_some : s.entry now k = some e ↔ s k = some e ∧ e.isLive now = true := by
  unfold entry
  rw [Option.filter_eq_some_iff]

theorem entry_of_none (h : s k = none) : s.entry now k = none := by
  unfold entry
  rw [h]
  rfl

theorem get_congr {s' : Expiring κ β} (h : s' k = s k) : s'.get now k = s.get now k := by
  unfold get entry
  rw [h]

variable [DecidableEq κ] {v : β} {t : Option Int}

@[simp] theorem put_self : s.put k v t k = some ⟨v, t⟩ := Function.update_self ..

theorem put_of_ne (h : k' ≠ k) : s.put k v t k' = s k' := Function.update_of_ne h ..

@[simp] theorem del_self : s.del k k = none := Function.update_self ..

theorem del_of_ne (h : k' ≠ k) : s.del k k' = s k' := Function.update_of_ne h ..

/-- An absent counter is zero. -/
theorem incr_fst {s : Expiring κ Nat} : (s.incr now k).1 = (s.get now k).getD 0 + 1 := by
  unfold incr get
  cases s.entry now k with
  | none => rfl
  | some e => rfl

theorem put_put {v' : β} {t' : Option Int} : (s.put k v t).put k v' t' = s.put k v' t' :=
  Function.update_idem ..

/-- Counting, with a new end. -/
theorem expire_incr {s : Expiring κ Nat} {t : Int} :
    (s.incr now k).2.expire now k t = s.put k (s.incr now k).1 (some t) := by
  unfold incr
  cases h : s.entry now k with
  | none =>
    have hentry : (s.put k 1 none).entry now k = some ⟨1, none⟩ := entry_eq_some.mpr ⟨put_self, rfl⟩
    unfold expire
    rw [hentry]
    exact put_put
  | some e =>
    have hentry : (s.put k (e.value + 1) e.expiresAt).entry now k = some ⟨e.value + 1,
        e.expiresAt⟩ :=
      entry_eq_some.mpr ⟨put_self, (entry_eq_some.mp h).2⟩
    unfold expire
    dsimp only
    rw [hentry]
    exact put_put

end Expiring

end Lib
