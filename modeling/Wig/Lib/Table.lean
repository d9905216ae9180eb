/-
Tables with a primary key: a list of rows, in insertion order, no two of them with the same key.
Inserting a row with a key that is present fails; replacing a row with a key that is absent, and
deleting one, changes nothing.
-/
import Mathlib.Tactic
import Mathlib.Data.List.Nodup

namespace Wig.Lib

/-- The rows of a table whose primary key is `key`. -/
structure Table {κ ρ : Type} (key : ρ → κ) where
  rows : List ρ
  nodup : (rows.map key).Nodup

namespace Table

variable {κ ρ : Type} {key : ρ → κ}

@[ext] theorem ext {t u : Table key} (h : t.rows = u.rows) : t = u := by
  cases t; cases u; simp only at h; subst h; rfl

/-- The table without rows. -/
def empty : Table key := ⟨[], List.nodup_nil⟩

/-- The keys that are present. -/
def keys (t : Table key) : List κ := t.rows.map key

@[simp] theorem empty_rows : (empty : Table key).rows = [] := rfl
@[simp] theorem keys_empty : (empty : Table key).keys = [] := rfl

theorem mem_keys {t : Table key} {k : κ} : k ∈ t.keys ↔ ∃ r ∈ t.rows, key r = k := List.mem_map

theorem key_mem_keys {t : Table key} {r : ρ} (h : r ∈ t.rows) : key r ∈ t.keys := mem_keys.2 ⟨r, h, rfl⟩

/-- A row is determined by its key. -/
theorem row_unique {t : Table key} {r r' : ρ} (h : r ∈ t.rows) (h' : r' ∈ t.rows) (hk : key r = key r') : r = r' :=
  List.inj_on_of_nodup_map t.nodup h h' hk

/-- The rows that satisfy `p`. -/
def filter (t : Table key) (p : ρ → Bool) : Table key :=
  ⟨t.rows.filter p, t.nodup.sublist (List.filter_sublist.map key)⟩

@[simp] theorem filter_rows (t : Table key) (p : ρ → Bool) : (t.filter p).rows = t.rows.filter p := rfl

theorem mem_filter {t : Table key} {p : ρ → Bool} {x : ρ} : x ∈ (t.filter p).rows ↔ x ∈ t.rows ∧ p x = true :=
  List.mem_filter

variable [DecidableEq κ]

/-- The row with a key. -/
def find? (t : Table key) (k : κ) : Option ρ := t.rows.find? fun r => decide (key r = k)

/-- Add a row; the key must be absent. -/
def insert (t : Table key) (r : ρ) : Option (Table key) :=
  if h : key r ∈ t.keys then none
  else some ⟨t.rows ++ [r], by
    rw [List.map_append, List.nodup_append]
    refine ⟨t.nodup, List.nodup_singleton _, fun a ha b hb => ?_⟩
    rw [List.map_singleton, List.mem_singleton] at hb
    rintro rfl
    exact h (hb ▸ ha)⟩

theorem map_key_replace (r : ρ) : ∀ l : List ρ,
    (l.map fun r' => if key r' = key r then r else r').map key = l.map key
  | [] => rfl
  | a :: l => by
    simp only [List.map_cons, map_key_replace r l]
    by_cases h : key a = key r
    · rw [if_pos h, h]
    · rw [if_neg h]

/-- Replace the row that has the key of `r`, if there is one. -/
def replace (t : Table key) (r : ρ) : Table key :=
  ⟨t.rows.map fun r' => if key r' = key r then r else r', by rw [map_key_replace]; exact t.nodup⟩

/-- Delete the row with a key, if there is one. -/
def erase (t : Table key) (k : κ) : Table key := t.filter fun r => decide (key r ≠ k)

/-- Put a row in the place of the one with its key, or add it. -/
def upsert (t : Table key) (r : ρ) : Table key :=
  ⟨(t.erase (key r)).rows ++ [r], by
    rw [List.map_append, List.nodup_append]
    refine ⟨(t.erase (key r)).nodup, List.nodup_singleton _, fun a ha b hb => ?_⟩
    rw [List.map_singleton, List.mem_singleton] at hb
    obtain ⟨r', hr', rfl⟩ := List.mem_map.1 ha
    have hne := (List.mem_filter.1 hr').2
    rw [hb]
    exact of_decide_eq_true hne⟩

/-! ## Lookups -/

theorem find?_eq_some {t : Table key} {k : κ} {r : ρ} : t.find? k = some r ↔ r ∈ t.rows ∧ key r = k := by
  unfold find?
  constructor
  · intro h
    exact ⟨List.mem_of_find?_eq_some h, by simpa using List.find?_some h⟩
  · rintro ⟨hr, rfl⟩
    rcases hf : t.rows.find? (fun r' => decide (key r' = key r)) with _ | r'
    · rw [List.find?_eq_none] at hf; simpa using hf r hr
    · have hk : key r' = key r := by simpa using List.find?_some hf
      rw [row_unique (List.mem_of_find?_eq_some hf) hr hk]

theorem find?_eq_none {t : Table key} {k : κ} : t.find? k = none ↔ k ∉ t.keys := by
  rw [mem_keys]
  unfold find?
  rw [List.find?_eq_none]
  constructor
  · rintro h ⟨r, hr, rfl⟩; simpa using h r hr
  · intro h r hr; simpa using fun hk => h ⟨r, hr, hk⟩

theorem filter_key_eq : ∀ {l : List ρ}, (l.map key).Nodup → ∀ k : κ,
    (l.filter fun r => decide (key r = k)) = (l.find? fun r => decide (key r = k)).toList
  | [], _, _ => rfl
  | a :: l, h, k => by
    rw [List.map_cons, List.nodup_cons] at h
    by_cases hk : key a = k
    · have hnil : (l.filter fun r => decide (key r = k)) = [] :=
        List.filter_eq_nil_iff.2 fun r hr heq => h.1 (List.mem_map.2 ⟨r, hr, (of_decide_eq_true heq).trans hk.symm⟩)
      rw [List.filter_cons_of_pos (by simp [hk]), List.find?_cons_of_pos (by simp [hk]), hnil]
      rfl
    · rw [List.filter_cons_of_neg (by simp [hk]), List.find?_cons_of_neg (by simp [hk]), filter_key_eq h.2 k]

/-- One row has a key, or none. -/
theorem filter_rows_key (t : Table key) (k : κ) : (t.rows.filter fun r => decide (key r = k)) = (t.find? k).toList :=
  filter_key_eq t.nodup k

theorem mem_keys_iff_find? {t : Table key} {k : κ} : k ∈ t.keys ↔ ∃ r, t.find? k = some r := by
  rw [← Option.isSome_iff_exists, ← not_iff_not, Bool.not_eq_true, Option.isSome_eq_false_iff,
    Option.isNone_iff_eq_none, find?_eq_none]

@[simp] theorem find?_empty (k : κ) : (empty : Table key).find? k = none := rfl

/-! ## Insertion -/

theorem insert_rows {t u : Table key} {r : ρ} (h : t.insert r = some u) :
    key r ∉ t.keys ∧ u.rows = t.rows ++ [r] := by
  unfold insert at h
  split at h
  · cases h
  · rename_i hk; cases h; exact ⟨hk, rfl⟩

theorem mem_insert {t u : Table key} {r x : ρ} (h : t.insert r = some u) : x ∈ u.rows ↔ x ∈ t.rows ∨ x = r := by
  rw [(insert_rows h).2, List.mem_append, List.mem_singleton]

theorem insert_of_not_mem {t : Table key} {r : ρ} (h : key r ∉ t.keys) :
    ∃ u, t.insert r = some u ∧ u.rows = t.rows ++ [r] := by
  unfold insert; rw [dif_neg h]; exact ⟨_, rfl, rfl⟩

theorem insert_eq_none {t : Table key} {r : ρ} : t.insert r = none ↔ key r ∈ t.keys := by
  unfold insert
  split
  · rename_i hk; exact iff_of_true rfl hk
  · rename_i hk; exact iff_of_false (Option.some_ne_none _) hk

theorem find?_insert {t u : Table key} {r : ρ} (h : t.insert r = some u) (k : κ) :
    u.find? k = if key r = k then some r else t.find? k := by
  obtain ⟨hk, hu⟩ := insert_rows h
  unfold find?
  rw [hu, List.find?_append]
  by_cases hrk : key r = k
  · have hnone := find?_eq_none.2 (hrk ▸ hk)
    unfold find? at hnone
    rw [hnone]; simp [hrk]
  · simp [hrk]

theorem keys_insert {t u : Table key} {r : ρ} (h : t.insert r = some u) : u.keys = t.keys ++ [key r] := by
  unfold keys; rw [(insert_rows h).2, List.map_append]; rfl

/-! ## Replacement and deletion -/

@[simp] theorem replace_rows (t : Table key) (r : ρ) :
    (t.replace r).rows = t.rows.map fun r' => if key r' = key r then r else r' := rfl

@[simp] theorem keys_replace (t : Table key) (r : ρ) : (t.replace r).keys = t.keys := map_key_replace r t.rows

theorem mem_replace {t : Table key} {r x : ρ} :
    x ∈ (t.replace r).rows ↔ (x = r ∧ key r ∈ t.keys) ∨ (x ∈ t.rows ∧ key x ≠ key r) := by
  rw [replace_rows, List.mem_map, mem_keys]
  constructor
  · rintro ⟨a, ha, rfl⟩
    by_cases hk : key a = key r
    · rw [if_pos hk]; exact .inl ⟨rfl, a, ha, hk⟩
    · rw [if_neg hk]; exact .inr ⟨ha, hk⟩
  · rintro (⟨rfl, a, ha, hk⟩ | ⟨hx, hk⟩)
    · exact ⟨a, ha, if_pos hk⟩
    · exact ⟨x, hx, if_neg hk⟩

theorem replace_of_mem {t : Table key} {r : ρ} (h : r ∈ t.rows) : t.replace r = t := by
  refine ext ((List.map_congr_left fun x hx => ?_).trans (List.map_id t.rows))
  split
  · rename_i hk
    exact row_unique h hx hk.symm
  · rfl

theorem find?_replace (t : Table key) (r : ρ) (k : κ) :
    (t.replace r).find? k = if key r = k then (t.find? k).map fun _ => r else t.find? k := by
  ext x
  rw [find?_eq_some, mem_replace]
  by_cases hk : key r = k
  · subst hk
    rw [if_pos rfl, Option.map_eq_some_iff, mem_keys_iff_find?]
    constructor
    · rintro ⟨⟨rfl, y, hy⟩ | ⟨-, h⟩, h'⟩
      · exact ⟨y, hy, rfl⟩
      · exact absurd h' h
    · rintro ⟨y, hy, rfl⟩
      exact ⟨.inl ⟨rfl, y, hy⟩, rfl⟩
  · rw [if_neg hk, find?_eq_some]
    constructor
    · rintro ⟨⟨rfl, -⟩ | ⟨hx, -⟩, h⟩
      · exact absurd h hk
      · exact ⟨hx, h⟩
    · rintro ⟨hx, rfl⟩
      exact ⟨.inr ⟨hx, fun h => hk h.symm⟩, rfl⟩

theorem find?_filter (t : Table key) (p : ρ → Bool) (k : κ) : (t.filter p).find? k = (t.find? k).filter p := by
  ext x
  rw [find?_eq_some, mem_filter, Option.filter_eq_some_iff, find?_eq_some]
  tauto

theorem mem_erase {t : Table key} {k : κ} {x : ρ} : x ∈ (t.erase k).rows ↔ x ∈ t.rows ∧ key x ≠ k := by
  unfold erase; rw [mem_filter]; simp

theorem find?_erase (t : Table key) (k k' : κ) :
    (t.erase k).find? k' = if k = k' then none else t.find? k' := by
  ext x
  rw [find?_eq_some, mem_erase]
  by_cases hk : k = k'
  · subst hk
    rw [if_pos rfl]
    constructor
    · rintro ⟨⟨-, h⟩, h'⟩; exact absurd h' h
    · intro h; cases h
  · rw [if_neg hk, find?_eq_some]
    constructor
    · rintro ⟨⟨hx, -⟩, h⟩; exact ⟨hx, h⟩
    · rintro ⟨hx, rfl⟩; exact ⟨⟨hx, fun h => hk h.symm⟩, rfl⟩

theorem mem_keys_erase {t : Table key} {k k' : κ} : k' ∈ (t.erase k).keys ↔ k' ∈ t.keys ∧ k' ≠ k := by
  rw [mem_keys, mem_keys]
  constructor
  · rintro ⟨r, hr, rfl⟩
    obtain ⟨hr, hne⟩ := mem_erase.1 hr
    exact ⟨⟨r, hr, rfl⟩, hne⟩
  · rintro ⟨⟨r, hr, rfl⟩, hne⟩
    exact ⟨r, mem_erase.2 ⟨hr, hne⟩, rfl⟩

theorem mem_upsert {t : Table key} {r x : ρ} : x ∈ (t.upsert r).rows ↔ (x ∈ t.rows ∧ key x ≠ key r) ∨ x = r := by
  unfold upsert
  rw [List.mem_append, List.mem_singleton, mem_erase]

theorem mem_keys_upsert {t : Table key} {r : ρ} {k : κ} : k ∈ (t.upsert r).keys ↔ k = key r ∨ k ∈ t.keys := by
  rw [mem_keys, mem_keys]
  constructor
  · rintro ⟨x, hx, rfl⟩
    rcases mem_upsert.1 hx with ⟨hx, -⟩ | rfl
    · exact .inr ⟨x, hx, rfl⟩
    · exact .inl rfl
  · rintro (rfl | ⟨x, hx, rfl⟩)
    · exact ⟨r, mem_upsert.2 (.inr rfl), rfl⟩
    · by_cases hk : key x = key r
      · exact ⟨r, mem_upsert.2 (.inr rfl), hk.symm⟩
      · exact ⟨x, mem_upsert.2 (.inl ⟨hx, hk⟩), rfl⟩

end Table

end Wig.Lib
