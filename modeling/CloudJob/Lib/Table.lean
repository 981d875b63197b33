import Mathlib.Data.List.Nodup
import Mathlib.Data.List.Count

/-!
# `Lib/Table.lean` — tables with a primary key

A table is a list of rows no two of which have the same key, and the fact that they do not is a
field: `find?` is then the row with a key, not the first of several, and the lemmas below need no
side condition that a primary key is one.

There are two writes. `insert` adds a row whose key is absent; `modify` rewrites the row at a key by
a function that keeps the key. `find?` and `count` are characterised after each of them, and nothing
downstream looks at `rows` to reason about a write. -/

set_option autoImplicit false

namespace Lib

/-- Rows with distinct keys. -/
structure Table {κ α : Type} (key : α → κ) where
  rows : List α
  distinct : (rows.map key).Nodup

namespace Table

variable {κ α : Type} [DecidableEq κ] {key : α → κ}

def empty : Table key := ⟨[], List.nodup_nil⟩

/-- The row at a key. -/
def find? (t : Table key) (k : κ) : Option α := t.rows.find? fun a => key a = k

/-- Add a row, unless its key is taken. -/
def insert (t : Table key) (a : α) : Table key :=
  if h : key a ∈ t.rows.map key then t
  else ⟨t.rows ++ [a], by
    rw [List.map_append, List.nodup_append]
    refine ⟨t.distinct, List.nodup_singleton _, ?_⟩
    intro x hx y hy hxy
    simp only [List.map_cons, List.map_nil, List.mem_singleton] at hy
    exact h (hy ▸ hxy ▸ hx)⟩

/-- Rewrite the row at a key. -/
def modify (t : Table key) (k : κ) (f : α → α) (hf : ∀ a, key (f a) = key a) : Table key :=
  ⟨t.rows.map fun a => if key a = k then f a else a, by
    have : (t.rows.map fun a => if key a = k then f a else a).map key = t.rows.map key := by
      rw [List.map_map]
      refine List.map_congr_left fun a _ => ?_
      simp only [Function.comp_apply]
      split <;> simp [hf]
    exact this ▸ t.distinct⟩

/-- How many rows satisfy `q`. -/
def count (t : Table key) (q : α → Bool) : Nat := t.rows.countP q

@[simp] theorem find?_empty (k : κ) : (empty : Table key).find? k = none := rfl

omit [DecidableEq κ] in
/-- A key determines its row. -/
theorem eq_of_key_eq {t : Table key} {a b : α} (ha : a ∈ t.rows) (hb : b ∈ t.rows)
    (h : key a = key b) : a = b :=
  List.inj_on_of_nodup_map t.distinct ha hb h

theorem find?_eq_some {t : Table key} {k : κ} {a : α} :
    t.find? k = some a ↔ a ∈ t.rows ∧ key a = k := by
  constructor
  · intro h
    exact ⟨List.mem_of_find?_eq_some h, by simpa using List.find?_some h⟩
  · rintro ⟨ha, hk⟩
    cases hf : t.find? k with
    | none =>
      have := List.find?_eq_none.mp hf a ha
      exact absurd hk (by simpa using this)
    | some b =>
      have hb : b ∈ t.rows := List.mem_of_find?_eq_some hf
      have hkb : key b = k := by simpa using List.find?_some hf
      rw [eq_of_key_eq ha hb (hk.trans hkb.symm)]

theorem find?_eq_none {t : Table key} {k : κ} : t.find? k = none ↔ ∀ a ∈ t.rows, key a ≠ k := by
  simp [find?, List.find?_eq_none]

theorem key_of_find? {t : Table key} {k : κ} {a : α} (h : t.find? k = some a) : key a = k :=
  (find?_eq_some.mp h).2

theorem mem_of_find? {t : Table key} {k : κ} {a : α} (h : t.find? k = some a) : a ∈ t.rows :=
  (find?_eq_some.mp h).1

theorem find?_of_mem {t : Table key} {a : α} (h : a ∈ t.rows) : t.find? (key a) = some a :=
  find?_eq_some.mpr ⟨h, rfl⟩

/-! ## After an insert -/

theorem rows_insert {t : Table key} {a : α} (h : t.find? (key a) = none) :
    (t.insert a).rows = t.rows ++ [a] := by
  have hn : key a ∉ t.rows.map key := by
    rintro hm
    obtain ⟨b, hb, hk⟩ := List.mem_map.mp hm
    exact find?_eq_none.mp h b hb hk
  rw [insert, dif_neg hn]

theorem find?_insert {t : Table key} {a : α} (h : t.find? (key a) = none) (k : κ) :
    (t.insert a).find? k = if k = key a then some a else t.find? k := by
  unfold find?
  rw [rows_insert h, List.find?_append]
  by_cases hk : k = key a
  · subst hk
    have hn : t.rows.find? (fun b => key b = key a) = none := h
    simp [hn]
  · have hk' : ¬ key a = k := fun h => hk h.symm
    cases t.rows.find? (fun b => key b = k) <;> simp [hk, hk']

theorem count_insert {t : Table key} {a : α} (h : t.find? (key a) = none) (q : α → Bool) :
    (t.insert a).count q = t.count q + (q a).toNat := by
  rw [count, rows_insert h, List.countP_append]
  cases hq : q a <;> simp [count, hq]

theorem count_insert_of_false {t : Table key} {a : α} {q : α → Bool} (hq : q a = false) :
    (t.insert a).count q = t.count q := by
  unfold insert
  split
  · rfl
  · simp [count, hq]

/-! ## After a modify -/

theorem find?_modify {t : Table key} {k : κ} {f : α → α} (hf : ∀ a, key (f a) = key a) (k' : κ) :
    (t.modify k f hf).find? k' = if k' = k then (t.find? k).map f else t.find? k' := by
  have hcomp : ∀ l : List α, (l.map fun a => if key a = k then f a else a).find?
      (fun a => key a = k') = if k' = k then (l.find? fun a => key a = k).map f
        else l.find? fun a => key a = k' := by
    intro l
    induction l with
    | nil => simp
    | cons a l ih =>
      simp only [List.map_cons, List.find?_cons, ih]
      by_cases hak : key a = k
      · by_cases hkk : k' = k
        · subst hkk; simp [hak, hf]
        · have : ¬ k = k' := fun h => hkk h.symm
          simp [hak, hf, hkk, this]
      · by_cases hkk : k' = k
        · subst hkk; simp [hak]
        · by_cases hak' : key a = k' <;> simp [hak, hkk, hak']
  exact hcomp t.rows

theorem mem_modify {t : Table key} {k : κ} {f : α → α} {hf : ∀ a, key (f a) = key a} {b : α} :
    b ∈ (t.modify k f hf).rows ↔ ∃ a ∈ t.rows, b = if key a = k then f a else a := by
  simp only [modify, List.mem_map]
  exact ⟨fun ⟨a, ha, h⟩ => ⟨a, ha, h.symm⟩, fun ⟨a, ha, h⟩ => ⟨a, ha, h.symm⟩⟩

/-- One row moved: the count gains what the new row adds and loses what the old one had. -/
theorem count_modify {t : Table key} {k : κ} {f : α → α} (hf : ∀ a, key (f a) = key a) {a : α}
    (h : t.find? k = some a) (q : α → Bool) :
    (t.modify k f hf).count q + (q a).toNat = t.count q + (q (f a)).toNat := by
  obtain ⟨ha, hk⟩ := find?_eq_some.mp h
  obtain ⟨l₁, l₂, hl⟩ := List.append_of_mem ha
  have hd := t.distinct
  rw [hl, List.map_append, List.map_cons, List.nodup_middle] at hd
  have hrest : ∀ b ∈ l₁ ++ l₂, ¬ key b = k := by
    intro b hb hbk
    refine (List.nodup_cons.mp hd).1 ?_
    rw [← List.map_append]
    exact hk ▸ hbk ▸ List.mem_map_of_mem hb
  have hsame : ∀ l : List α, (∀ b ∈ l, b ∈ l₁ ++ l₂) →
      (l.map fun a => if key a = k then f a else a) = l := by
    intro l hm
    conv_rhs => rw [← List.map_id l]
    refine List.map_congr_left fun b hb => ?_
    simp [hrest b (hm b hb)]
  unfold count modify
  simp only [hl, List.map_append, List.map_cons, hk, if_true, List.countP_append, List.countP_cons]
  rw [hsame l₁ (fun b hb => List.mem_append_left _ hb),
    hsame l₂ (fun b hb => List.mem_append_right _ hb)]
  cases q a <;> cases q (f a) <;> simp <;> omega

/-- A property the rewriting does not touch is counted as before. -/
theorem count_modify_of_keeps {t : Table key} {k : κ} {f : α → α} (hf : ∀ a, key (f a) = key a)
    {q : α → Bool} (hq : ∀ a, q (f a) = q a) : (t.modify k f hf).count q = t.count q := by
  simp only [count, modify, List.countP_map]
  refine List.countP_congr fun a _ => ?_
  simp only [Function.comp_apply]
  split
  · rw [hq]
  · rfl

theorem count_modify_of_none {t : Table key} {k : κ} {f : α → α} (hf : ∀ a, key (f a) = key a)
    (h : t.find? k = none) (q : α → Bool) : (t.modify k f hf).count q = t.count q := by
  have hsame : (t.rows.map fun a => if key a = k then f a else a) = t.rows := by
    conv_rhs => rw [← List.map_id t.rows]
    refine List.map_congr_left fun b hb => ?_
    simp [find?_eq_none.mp h b hb]
  simp [count, modify, hsame]

end Table

end Lib
