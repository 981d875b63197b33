import Mathlib.Data.List.Basic

/-!
# `Lib/Text.lean` — keys made of parts

A key is its parts with colons between them. Where a part has no colon of its own, it can be read
off the key again; numbers have none. -/

set_option autoImplicit false

namespace Lib

/-- What stands before the first colon, and what after it. -/
theorem colon_split {xs xs' ys ys' : List Char} (h : ':' ∉ xs) (h' : ':' ∉ xs')
    (heq : xs ++ ':' :: ys = xs' ++ ':' :: ys') : xs = xs' ∧ ys = ys' := by
  induction xs generalizing xs' with
  | nil =>
    cases xs' with
    | nil => exact ⟨rfl, List.tail_eq_of_cons_eq heq⟩
    | cons c xs' =>
      have hc : ':' = c := List.head_eq_of_cons_eq heq
      exact absurd (hc ▸ List.mem_cons_self) h'
  | cons c xs ih =>
    cases xs' with
    | nil =>
      have hc : c = ':' := List.head_eq_of_cons_eq heq
      exact absurd (hc ▸ List.mem_cons_self) h
    | cons c' xs' =>
      obtain ⟨hxs, hys⟩ := ih (fun hm => h (List.mem_cons_of_mem _ hm))
        (fun hm => h' (List.mem_cons_of_mem _ hm)) (List.tail_eq_of_cons_eq heq)
      rw [List.head_eq_of_cons_eq heq, hxs, hys]
      exact ⟨rfl, rfl⟩

theorem colon_notMem_toString (n : Nat) : ':' ∉ (toString n).toList := by
  intro h
  have hdigit := Nat.isDigit_of_mem_toDigits (by decide) (by decide) (Nat.toList_repr ▸ h)
  exact absurd hdigit (by decide)

theorem toString_nat_injective {m n : Nat} (h : (toString m).toList = (toString n).toList) :
    m = n := by
  have hdigits : Nat.toDigits 10 m = Nat.toDigits 10 n := by
    rw [← Nat.toList_repr, ← Nat.toList_repr]
    exact h
  have hvalue := congrArg (fun digits => Nat.ofDigitChars 10 digits 0) hdigits
  simpa [Nat.ofDigitChars_toDigits] using hvalue

/-- What stands after the last colon, and what before it. -/
theorem colon_split_last {xs xs' ys ys' : List Char} (h : ':' ∉ ys) (h' : ':' ∉ ys')
    (heq : xs ++ ':' :: ys = xs' ++ ':' :: ys') : xs = xs' ∧ ys = ys' := by
  have hrev := congrArg List.reverse heq
  simp only [List.reverse_append, List.reverse_cons, List.append_assoc,
    List.singleton_append] at hrev
  obtain ⟨hys, hxs⟩ := colon_split (fun hm => h (List.mem_reverse.mp hm))
    (fun hm => h' (List.mem_reverse.mp hm)) hrev
  exact ⟨List.reverse_inj.mp hxs, List.reverse_inj.mp hys⟩

theorem toString_int_toList (n : Int) : (toString n).toList = match n with
    | .ofNat m => (toString m).toList
    | .negSucc m => '-' :: (toString (m + 1)).toList := by
  cases n with
  | ofNat m => rfl
  | negSucc m =>
    show (String.append "-" (toString (m + 1))).toList = _
    rw [show String.append "-" (toString (m + 1)) = "-" ++ toString (m + 1) from rfl,
      String.toList_append]
    rfl

theorem colon_notMem_toString_int (n : Int) : ':' ∉ (toString n).toList := by
  rw [toString_int_toList]
  cases n with
  | ofNat m => exact colon_notMem_toString m
  | negSucc m =>
    intro h
    rcases List.mem_cons.mp h with h | h
    · exact absurd h (by decide)
    · exact colon_notMem_toString (m + 1) h

theorem minus_notMem_toString (n : Nat) : '-' ∉ (toString n).toList := by
  intro h
  have hdigit := Nat.isDigit_of_mem_toDigits (by decide) (by decide) (Nat.toList_repr ▸ h)
  exact absurd hdigit (by decide)

theorem toString_int_injective {m n : Int} (h : (toString m).toList = (toString n).toList) :
    m = n := by
  rw [toString_int_toList, toString_int_toList] at h
  cases m with
  | ofNat m => cases n with
    | ofNat n => exact congrArg Int.ofNat (toString_nat_injective h)
    | negSucc n =>
      have heq : (toString m).toList = '-' :: (toString (n + 1)).toList := h
      exact absurd (heq ▸ List.mem_cons_self) (minus_notMem_toString m)
  | negSucc m => cases n with
    | ofNat n =>
      have heq : '-' :: (toString (m + 1)).toList = (toString n).toList := h
      exact absurd (heq ▸ List.mem_cons_self) (minus_notMem_toString n)
    | negSucc n =>
      have heq := toString_nat_injective (List.tail_eq_of_cons_eq h)
      exact congrArg Int.negSucc (Nat.succ.inj heq)

end Lib
