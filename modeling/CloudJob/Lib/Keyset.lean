import Mathlib.Data.List.Sort
import Mathlib.Data.List.Perm.Subperm
import Mathlib.Data.Finset.Card

/-!
# `Lib/Keyset.lean` — walking through a growing table page by page

Rows are ordered by a key and read from the greatest down. A page is the first `limit` rows below a
position; the position of the next page is the key of its last row, and there is a next page where
one row more than `limit` was found. Between two pages the table may have grown.

The rows are only looked at through their keys: what a walk returns is said in terms of them, so
that a row may change in every other respect between two pages. -/

set_option autoImplicit false

namespace Lib

namespace Keyset

variable {α κ : Type} [LinearOrder κ] (key : α → κ)

/-- The rows below a position, greatest first. -/
def below (pos : Option κ) (rows : List α) : List α :=
  (rows.filter fun a => pos.all fun k => decide (key a < k)).insertionSort fun a b => key b ≤ key a

/-- The pages of a walk, one for each state of the table it finds, and whether it has come to its
end. -/
def walk (limit : Nat) : List (List α) → Option κ → List (List α) × Bool
  | [], _ => ([], false)
  | rows :: rest, pos =>
      let found := (below key pos rows).take (limit + 1)
      if limit < found.length then
        let next := walk limit rest ((found.take limit).getLast?.map key)
        (found.take limit :: next.1, next.2)
      else ([found.take limit], true)

/-- The table grows: no key is lost. -/
def Grows (rows rows' : List α) : Prop := rows.map key ⊆ rows'.map key

variable {key} {rows : List α} {limit : Nat}

theorem mem_below {pos : Option κ} {a : α} : a ∈ below key pos rows ↔ a ∈ rows ∧ ∀ k ∈ pos,
    key a < k := by
  unfold below
  rw [List.mem_insertionSort, List.mem_filter]
  cases pos <;> simp

/-- Distinct keys: the order is strict. -/
theorem pairwise_below (pos : Option κ) (hk : (rows.map key).Nodup) :
    (below key pos rows).Pairwise fun a b => key b < key a := by
  have hle : (below key pos rows).Pairwise fun a b => key b ≤ key a := by
    have : Std.Total fun a b : α => key b ≤ key a := ⟨fun a b => le_total (key b) (key a)⟩
    have : IsTrans α fun a b : α => key b ≤ key a := ⟨fun _ _ _ hab hbc => hbc.trans hab⟩
    exact List.pairwise_insertionSort _ _
  have hne : (below key pos rows).Pairwise fun a b => key a ≠ key b := by
    have hperm : (below key pos rows).Perm (rows.filter fun a => pos.all fun k =>
        decide (key a < k)) :=
      List.perm_insertionSort _ _
    have hnodup : ((below key pos rows).map key).Nodup :=
      (hperm.map key).nodup_iff.mpr (hk.sublist (List.filter_sublist.map key))
    exact List.pairwise_map.mp hnodup
  exact hle.imp₂ (fun a b hab hne => lt_of_le_of_ne hab hne.symm) hne

/-! ## One page -/

/-- The page is full and its last row is the position of the next, or nothing is left. -/
theorem page_cases (pos : Option κ) (hk : (rows.map key).Nodup) (hl : 1 ≤ limit) :
    (limit < ((below key pos rows).take (limit + 1)).length ∧
      ((below key pos rows).take limit).length = limit ∧
      ∃ last, ((below key pos rows).take limit).getLast? = some last ∧
        (∀ a ∈ (below key pos rows).take limit, key last ≤ key a) ∧
        ∀ a ∈ below key pos rows, a ∈ (below key pos rows).take limit ∨ key a < key last) ∨
    (¬ limit < ((below key pos rows).take (limit + 1)).length ∧
      (below key pos rows).take limit = below key pos rows) := by
  have hsorted := pairwise_below pos hk
  by_cases hlt : limit < ((below key pos rows).take (limit + 1)).length
  · left
    rw [List.length_take] at hlt
    have hlen : ((below key pos rows).take limit).length = limit := by
      rw [List.length_take]
      omega
    obtain ⟨last, hlast⟩ : ∃ last, ((below key pos rows).take limit).getLast? = some last := by
      cases h : ((below key pos rows).take limit).getLast? with
      | some last => exact ⟨last, rfl⟩
      | none =>
        rw [List.getLast?_eq_none_iff] at h
        rw [h] at hlen
        simp only [List.length_nil] at hlen
        omega
    refine ⟨by rw [List.length_take]; exact hlt, hlen, last, hlast, fun a ha => ?_, fun a ha => ?_⟩
    · -- the last row of a descending list is its least
      obtain ⟨init, hinit⟩ := List.getLast?_eq_some_iff.mp hlast
      have hpw := hsorted.take (i := limit)
      rw [hinit, List.pairwise_append] at hpw
      rw [hinit] at ha
      rcases List.mem_append.mp ha with ha | ha
      · exact (hpw.2.2 a ha last (List.mem_singleton_self last)).le
      · rw [List.mem_singleton] at ha
        rw [ha]
    · rw [← List.take_append_drop limit (below key pos rows)] at ha
      refine (List.mem_append.mp ha).imp_right fun hdrop => ?_
      exact hsorted.rel_of_mem_take_of_mem_drop (List.mem_of_getLast? hlast) hdrop
  · right
    refine ⟨hlt, List.take_of_length_le ?_⟩
    rw [List.length_take] at hlt
    omega

/-- What the first round of a walk does. -/
theorem walk_cons (pos : Option κ) (hk : (rows.map key).Nodup) (hl : 1 ≤ limit)
    (rest : List (List α)) : (∃ last, ((below key pos rows).take limit).length = limit ∧
      ((below key pos rows).take limit).getLast? = some last ∧
      (∀ a ∈ (below key pos rows).take limit, key last ≤ key a) ∧
      (∀ a ∈ below key pos rows, a ∈ (below key pos rows).take limit ∨ key a < key last) ∧
      walk key limit (rows :: rest) pos =
        ((below key pos rows).take limit :: (walk key limit rest (some (key last))).1,
          (walk key limit rest (some (key last))).2)) ∨
    walk key limit (rows :: rest) pos = ([below key pos rows], true) := by
  have htake : ((below key pos rows).take (limit + 1)).take limit =
      (below key pos rows).take limit := by
    rw [List.take_take, Nat.min_eq_left (Nat.le_succ limit)]
  rcases page_cases pos hk hl with ⟨hlt, hlen, last, hlast, hmin, hsplit⟩ | ⟨hlt, hall⟩
  · refine .inl ⟨last, hlen, hlast, hmin, hsplit, ?_⟩
    simp only [walk, if_pos hlt, htake, hlast, Option.map_some]
  · refine .inr ?_
    simp only [walk, if_neg hlt, htake, hall]

/-! ## The whole walk -/

/-- The items come in strictly descending order, all of them below where the walk began. -/
theorem walk_descending (hl : 1 ≤ limit) : ∀ {states : List (List α)} (pos : Option κ),
    (∀ rows ∈ states, (rows.map key).Nodup) →
    ((walk key limit states pos).1.flatten.Pairwise fun a b => key b < key a) ∧
      ∀ a ∈ (walk key limit states pos).1.flatten, ∀ k ∈ pos, key a < k
  | [], _, _ => ⟨.nil, nofun⟩
  | rows :: rest, pos, hk => by
    have hrows := hk rows List.mem_cons_self
    have hpage : ((below key pos rows).take limit).Pairwise fun a b => key b < key a :=
      (pairwise_below pos hrows).take
    have hbelow : ∀ a ∈ (below key pos rows).take limit, ∀ k ∈ pos, key a < k := fun a ha =>
      (mem_below.mp (List.mem_of_mem_take ha)).2
    rcases walk_cons pos hrows hl rest with ⟨last, -, hlast, hmin, -, heq⟩ | heq
    · obtain ⟨hpw, hlt⟩ := walk_descending hl (some (key last)) fun rows' hm =>
        hk rows' (List.mem_cons_of_mem _ hm)
      have hnext : ∀ b ∈ (walk key limit rest (some (key last))).1.flatten, key b < key last :=
        fun b hb => hlt b hb _ rfl
      rw [heq, List.flatten_cons]
      refine ⟨List.pairwise_append.mpr ⟨hpage, hpw, fun a ha b hb => ?_⟩, fun a ha k hkp => ?_⟩
      · exact (hnext b hb).trans_le (hmin a ha)
      · rcases List.mem_append.mp ha with ha | ha
        · exact hbelow a ha k hkp
        · exact (hnext a ha).trans (hbelow last (List.mem_of_getLast? hlast) k hkp)
    · rw [heq, List.flatten_singleton]
      exact ⟨pairwise_below pos hrows, fun a ha => (mem_below.mp ha).2⟩

/-- Every item was a row of the table when its page was read. -/
theorem walk_sound (hl : 1 ≤ limit) : ∀ {states : List (List α)} {pos : Option κ},
    (∀ rows ∈ states, (rows.map key).Nodup) →
    ∀ a ∈ (walk key limit states pos).1.flatten, ∃ rows ∈ states, a ∈ rows
  | [], _, _ => nofun
  | rows :: rest, pos, hk => by
    have hrows := hk rows List.mem_cons_self
    intro a ha
    rcases walk_cons pos hrows hl rest with ⟨last, -, -, -, -, heq⟩ | heq
    · rw [heq, List.flatten_cons] at ha
      rcases List.mem_append.mp ha with ha | ha
      · exact ⟨rows, List.mem_cons_self, (mem_below.mp (List.mem_of_mem_take ha)).1⟩
      · obtain ⟨rows', hm, ha'⟩ := walk_sound hl
          (fun rows' hm => hk rows' (List.mem_cons_of_mem _ hm)) a ha
        exact ⟨rows', List.mem_cons_of_mem _ hm, ha'⟩
    · rw [heq, List.flatten_singleton] at ha
      exact ⟨rows, List.mem_cons_self, (mem_below.mp ha).1⟩

/-- Every page but the last is full, and the last one too where the walk has not come to its end. -/
theorem walk_full (hl : 1 ≤ limit) : ∀ {states : List (List α)} (pos : Option κ),
    (∀ rows ∈ states, (rows.map key).Nodup) →
    (∀ page ∈ (walk key limit states pos).1.dropLast, page.length = limit) ∧
    ((walk key limit states pos).2 = false →
      (walk key limit states pos).1.length = states.length ∧
      ∀ page ∈ (walk key limit states pos).1, page.length = limit)
  | [], _, _ => ⟨nofun, fun _ => ⟨rfl, nofun⟩⟩
  | rows :: rest, pos, hk => by
    have hrows := hk rows List.mem_cons_self
    rcases walk_cons pos hrows hl rest with ⟨last, hlen, -, -, -, heq⟩ | heq
    · obtain ⟨hinit, hopen⟩ := walk_full hl (some (key last)) fun rows' hm =>
        hk rows' (List.mem_cons_of_mem _ hm)
      rw [heq]
      refine ⟨fun page hp => ?_, fun hend => ⟨?_, fun page hp => ?_⟩⟩
      · cases hpages : (walk key limit rest (some (key last))).1 with
        | nil =>
          rw [hpages] at hp
          cases hp
        | cons page' pages =>
          rw [hpages, List.dropLast_cons_cons] at hp
          rcases List.mem_cons.mp hp with rfl | hp
          · exact hlen
          · exact hinit page (hpages ▸ hp)
      · rw [List.length_cons, List.length_cons, (hopen hend).1]
      · rcases List.mem_cons.mp hp with rfl | hp
        · exact hlen
        · exact (hopen hend).2 page hp
    · rw [heq]
      exact ⟨nofun, nofun⟩

/-- A walk that has come to its end has returned every row that was there when it began. -/
theorem walk_complete (hl : 1 ≤ limit) : ∀ {rows : List α} {rest : List (List α)} {pos : Option κ},
    (∀ rows' ∈ rows :: rest, (rows'.map key).Nodup) → (rows :: rest).IsChain (Grows key) →
    (walk key limit (rows :: rest) pos).2 = true →
    ∀ a ∈ rows, (∀ k ∈ pos, key a < k) →
      ∃ b ∈ (walk key limit (rows :: rest) pos).1.flatten, key b = key a
  | rows, rest, pos, hk, hgrow, hend, a, ha, hpos => by
    have hrows := hk rows List.mem_cons_self
    have hbelow : a ∈ below key pos rows := mem_below.mpr ⟨ha, hpos⟩
    rcases walk_cons pos hrows hl rest with ⟨last, -, -, -, hsplit, heq⟩ | heq
    · rw [heq] at hend ⊢
      rw [List.flatten_cons]
      rcases hsplit a hbelow with hpage | hlt
      · exact ⟨a, List.mem_append_left _ hpage, rfl⟩
      · -- the row is still there when the next page is read, and below where that one begins
        cases rest with
        | nil => cases hend
        | cons rows' rest =>
          rw [List.isChain_cons_cons] at hgrow
          obtain ⟨a', ha', hkey⟩ := List.mem_map.mp (hgrow.1 (List.mem_map_of_mem ha))
          obtain ⟨b, hb, hbk⟩ := walk_complete hl (fun r hm => hk r (List.mem_cons_of_mem _ hm))
            hgrow.2 hend a' ha' (fun k hkk => by cases hkk; rwa [hkey])
          exact ⟨b, List.mem_append_right _ hb, hbk.trans hkey⟩
    · rw [heq, List.flatten_singleton]
      exact ⟨a, hbelow, rfl⟩

omit [LinearOrder κ] in
/-- No key is ever lost again. -/
theorem grows_getLast : ∀ {states : List (List α)} {final : List α}, states.IsChain (Grows key) →
    states.getLast? = some final → ∀ rows ∈ states, Grows key rows final
  | [], _, _, _ => nofun
  | [rows], final, _, hlast => by
    intro rows' hm
    rw [List.mem_singleton] at hm
    cases hlast
    rw [hm]
    exact List.Subset.refl _
  | rows :: rows' :: rest, final, hgrow, hlast => by
    rw [List.isChain_cons_cons] at hgrow
    rw [List.getLast?_cons_cons] at hlast
    have hrest := grows_getLast hgrow.2 hlast
    intro r hm
    rcases List.mem_cons.mp hm with rfl | hm
    · exact List.Subset.trans hgrow.1 (hrest rows' List.mem_cons_self)
    · exact hrest r hm

/-- A walk through more states than there are rows in the end comes to its end: every page that is
not the last takes at least one of them. -/
theorem walk_ends (hl : 1 ≤ limit) (pos : Option κ) {states : List (List α)} {final : List α}
    (hk : ∀ rows ∈ states, (rows.map key).Nodup) (hgrow : states.IsChain (Grows key))
    (hlast : states.getLast? = some final) (hlen : final.length < states.length) :
    (walk key limit states pos).2 = true := by
  by_contra hopen
  rw [Bool.not_eq_true] at hopen
  obtain ⟨hpages, hfull⟩ := (walk_full hl pos hk).2 hopen
  have hitems : states.length ≤ (walk key limit states pos).1.flatten.length := by
    have hsum : ((walk key limit states pos).1.map List.length) = List.replicate
        states.length limit := by
      rw [List.eq_replicate_iff, List.length_map]
      refine ⟨hpages, fun n hn => ?_⟩
      obtain ⟨page, hp, rfl⟩ := List.mem_map.mp hn
      exact hfull page hp
    rw [List.length_flatten, hsum, List.sum_replicate_nat]
    exact Nat.le_mul_of_pos_right _ hl
  have hnodup : ((walk key limit states pos).1.flatten.map key).Nodup := by
    refine List.pairwise_map.mpr ((walk_descending hl pos hk).1.imp fun {a b} hab => ?_)
    exact hab.ne'
  have hsub : (walk key limit states pos).1.flatten.map key ⊆ final.map key := by
    intro k hkm
    obtain ⟨a, ha, rfl⟩ := List.mem_map.mp hkm
    obtain ⟨rows, hrows, har⟩ := walk_sound hl hk a ha
    exact grows_getLast hgrow hlast rows hrows (List.mem_map_of_mem har)
  have hle := (hnodup.subperm hsub).length_le
  rw [List.length_map, List.length_map] at hle
  omega

end Keyset

end Lib
