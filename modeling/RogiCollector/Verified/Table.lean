import Mathlib.Data.List.Nodup
import Mathlib.Data.List.Perm.Subperm

/-!
# Keyed tables

The relational layer every store model in this package sits on.  A `Table`
is the list of its rows in insertion order, each under its primary key, and
the structure carries the proof that no key occurs twice: a table that
violates its primary key cannot be written down, so no invariant further up
has to mention it.

The five operations are the five statement shapes the modelled programs
issue:

* `find` — `SELECT … WHERE pk = k`,
* `insert` — `INSERT`, refused when the key is taken,
* `update` — `UPDATE … SET … WHERE …`, the condition being part of the
  row function,
* `delete` — `DELETE … WHERE …`,
* `select` — `SELECT … WHERE …` over the whole table.
-/

namespace RogiCollector.Verified

/-- Rows in insertion order under a primary key. -/
structure Table (κ ρ : Type) where
  rows : List (κ × ρ)
  nodup : (rows.map Prod.fst).Nodup

namespace Table

variable {κ ρ : Type}

/-- The empty table. -/
def empty : Table κ ρ := ⟨[], List.nodup_nil⟩

/-- Row `r` is stored under key `k`. -/
def Has (t : Table κ ρ) (k : κ) (r : ρ) : Prop := (k, r) ∈ t.rows

@[simp] theorem has_empty (k : κ) (r : ρ) : ¬(empty : Table κ ρ).Has k r := by
  simp [Has, empty]

variable {t : Table κ ρ} {k : κ} {r : ρ}

/-- A key holds at most one row. -/
theorem Has.unique {r' : ρ} (h : t.Has k r) (h' : t.Has k r') : r = r' := by
  have hinj := List.inj_on_of_nodup_map t.nodup h h' rfl
  exact congrArg Prod.snd hinj

/-- The keys in insertion order. -/
def keys (t : Table κ ρ) : List κ := t.rows.map Prod.fst

theorem nodup_keys (t : Table κ ρ) : t.keys.Nodup := t.nodup

@[simp] theorem mem_keys : k ∈ t.keys ↔ ∃ r, t.Has k r := by
  simp [keys, Has]

/-! ## Updating and deleting -/

/-- `UPDATE`: every row is rewritten, keys stay. -/
def update (t : Table κ ρ) (f : κ → ρ → ρ) : Table κ ρ where
  rows := t.rows.map fun row => (row.1, f row.1 row.2)
  nodup := by
    rw [List.map_map]
    exact t.nodup

theorem has_update {f : κ → ρ → ρ} : (t.update f).Has k r ↔ ∃ r0, t.Has k r0 ∧ f k r0 = r := by
  simp only [Has, update, List.mem_map, Prod.mk.injEq, Prod.exists]
  constructor
  · rintro ⟨k0, r0, hmem, rfl, hr⟩
    exact ⟨r0, hmem, hr⟩
  · rintro ⟨r0, hmem, hr⟩
    exact ⟨k, r0, hmem, rfl, hr⟩

/-- `DELETE`: the rows that meet the condition go. -/
def delete (t : Table κ ρ) (p : κ → ρ → Bool) : Table κ ρ where
  rows := t.rows.filter fun row => !p row.1 row.2
  nodup := t.nodup.sublist (List.filter_sublist.map Prod.fst)

variable {p : κ → ρ → Bool}

@[simp] theorem has_delete : (t.delete p).Has k r ↔ t.Has k r ∧ p k r = false := by
  simp [Has, delete, List.mem_filter]

/-- A condition that an update does not change. -/
theorem delete_update (t : Table κ ρ) {f : κ → ρ → ρ} (h : ∀ k r, p k (f k r) = p k r) :
    (t.update f).delete p = (t.delete p).update f := by
  simp only [delete, update, List.filter_map, mk.injEq]
  congr 2
  funext row
  simp only [Function.comp_apply, h]

/-- `SELECT`: the rows that meet the condition, in insertion order. -/
def select (t : Table κ ρ) (p : κ → ρ → Bool) : List (κ × ρ) :=
  t.rows.filter fun row => p row.1 row.2

@[simp] theorem mem_select {row : κ × ρ} :
    row ∈ t.select p ↔ t.Has row.1 row.2 ∧ p row.1 row.2 = true := by
  simp [Has, select, List.mem_filter]

/-- Selecting after an update. -/
theorem select_update (t : Table κ ρ) (f : κ → ρ → ρ) (p : κ → ρ → Bool) :
    (t.update f).select p =
      (t.select fun k r => p k (f k r)).map fun row => (row.1, f row.1 row.2) := by
  simp only [select, update, List.filter_map]
  rfl

variable {q : κ → ρ → Bool}

/-- Conditions that agree on the stored rows select the same rows. -/
theorem select_congr (h : ∀ k r, t.Has k r → p k r = q k r) : t.select p = t.select q :=
  List.filter_congr fun row hrow => h row.1 row.2 hrow

/-- Selected rows are pairwise different. -/
theorem nodup_select_keys (t : Table κ ρ) (p : κ → ρ → Bool) :
    ((t.select p).map Prod.fst).Nodup :=
  t.nodup.sublist (List.filter_sublist.map _)

theorem nodup_select (t : Table κ ρ) (p : κ → ρ → Bool) : (t.select p).Nodup :=
  (List.Nodup.of_map Prod.fst t.nodup).filter _

variable {t' : Table κ ρ}

/-- Every selected row of one table has its counterpart under the same key of the
other, except under one key. -/
theorem length_select_le_succ (k0 : κ)
    (h : ∀ k r, t'.Has k r → p k r = true → k = k0 ∨ ∃ r0, t.Has k r0 ∧ q k r0 = true) :
    (t'.select p).length ≤ (t.select q).length + 1 := by
  have hsubset : (t'.select p).map Prod.fst ⊆ k0 :: (t.select q).map Prod.fst := by
    intro k hk
    obtain ⟨⟨k, r⟩, hrow, rfl⟩ := List.mem_map.mp hk
    obtain ⟨hhas, hp⟩ := mem_select.mp hrow
    rcases h k r hhas hp with rfl | ⟨r0, hr0, hq⟩
    · exact List.mem_cons_self
    · exact List.mem_cons_of_mem _ (List.mem_map.mpr ⟨(k, r0), mem_select.mpr ⟨hr0, hq⟩, rfl⟩)
  have hle := (List.subperm_of_subset (nodup_select_keys t' p) hsubset).length_le
  simpa using hle

/-- Every selected row of one table has its counterpart in the other. -/
theorem length_select_le
    (h : ∀ k r, t'.Has k r → p k r = true → ∃ r0, t.Has k r0 ∧ q k r0 = true) :
    (t'.select p).length ≤ (t.select q).length := by
  have hsubset : (t'.select p).map Prod.fst ⊆ (t.select q).map Prod.fst := by
    intro k hk
    obtain ⟨⟨k, r⟩, hrow, rfl⟩ := List.mem_map.mp hk
    obtain ⟨hhas, hp⟩ := mem_select.mp hrow
    obtain ⟨r0, hr0, hq⟩ := h k r hhas hp
    exact List.mem_map.mpr ⟨(k, r0), mem_select.mpr ⟨hr0, hq⟩, rfl⟩
  have hle := (List.subperm_of_subset (nodup_select_keys t' p) hsubset).length_le
  simpa using hle

/-- `EXISTS (SELECT 1 … WHERE …)`. -/
def any (t : Table κ ρ) (p : κ → ρ → Bool) : Bool :=
  t.rows.any fun row => p row.1 row.2

@[simp] theorem any_eq_true : t.any p = true ↔ ∃ k r, t.Has k r ∧ p k r = true := by
  simp [any, Has, List.any_eq_true]

theorem any_eq_false : t.any p = false ↔ ∀ k r, t.Has k r → p k r = false := by
  simp [any, Has, List.any_eq_false]

/-! ## Lookup and insertion by key -/

section Keyed

variable [DecidableEq κ]

/-- `SELECT … WHERE pk = k`. -/
def find (t : Table κ ρ) (k : κ) : Option ρ :=
  (t.rows.find? fun row => row.1 = k).map Prod.snd

theorem find_eq_some_iff : t.find k = some r ↔ t.Has k r := by
  constructor
  · intro h
    simp only [find, Option.map_eq_some_iff] at h
    obtain ⟨⟨k0, r0⟩, hfind, rfl⟩ := h
    have hk : k0 = k := by simpa using List.find?_some hfind
    subst hk
    exact List.mem_of_find?_eq_some hfind
  · intro h
    have hsome : (t.rows.find? fun row => row.1 = k).isSome := by
      rw [List.find?_isSome]
      exact ⟨(k, r), h, by simp⟩
    obtain ⟨⟨k0, r0⟩, hfind⟩ := Option.isSome_iff_exists.mp hsome
    have hk : k0 = k := by simpa using List.find?_some hfind
    subst hk
    have hr : r0 = r := Has.unique (List.mem_of_find?_eq_some hfind) h
    simp [find, hfind, hr]

theorem find_eq_none_iff : t.find k = none ↔ ∀ r, ¬t.Has k r := by
  constructor
  · intro h r hr
    rw [← find_eq_some_iff, h] at hr
    cases hr
  · intro h
    cases hf : t.find k with
    | none => rfl
    | some r => exact absurd (find_eq_some_iff.mp hf) (h r)

/-- Tables that agree on a key agree on its lookup. -/
theorem find_congr (h : ∀ r, t'.Has k r ↔ t.Has k r) : t'.find k = t.find k := by
  cases hf : t.find k with
  | none =>
    rw [find_eq_none_iff] at hf ⊢
    intro r hr
    exact hf r ((h r).mp hr)
  | some r =>
    rw [find_eq_some_iff] at hf ⊢
    exact (h r).mpr hf

/-- `UPDATE … WHERE pk = k`. -/
def modify (t : Table κ ρ) (k : κ) (f : ρ → ρ) : Table κ ρ :=
  t.update fun k' r => if k' = k then f r else r

variable {k' : κ} {f : ρ → ρ}

theorem has_modify :
    (t.modify k f).Has k' r ↔
      (k' = k ∧ ∃ r0, t.Has k r0 ∧ f r0 = r) ∨ (k' ≠ k ∧ t.Has k' r) := by
  rw [modify, has_update]
  by_cases hk : k' = k
  · subst hk
    simp
  · simp [hk]

/-- No row goes. -/
theorem exists_has_modify (k : κ) (f : ρ → ρ) (h : t.Has k' r) :
    ∃ r', (t.modify k f).Has k' r' := by
  by_cases hk : k' = k
  · subst hk
    exact ⟨f r, has_modify.mpr (Or.inl ⟨rfl, r, h, rfl⟩)⟩
  · exact ⟨r, has_modify.mpr (Or.inr ⟨hk, h⟩)⟩

/-- The same when the row under `k` is known. -/
theorem has_modify_of_has {r0 : ρ} (h : t.Has k r0) :
    (t.modify k f).Has k' r ↔ (k' = k ∧ r = f r0) ∨ (k' ≠ k ∧ t.Has k' r) := by
  rw [has_modify]
  constructor
  · rintro (⟨rfl, r1, hr1, rfl⟩ | hr)
    · exact Or.inl ⟨rfl, by rw [hr1.unique h]⟩
    · exact Or.inr hr
  · rintro (⟨rfl, rfl⟩ | hr)
    · exact Or.inl ⟨rfl, r0, h, rfl⟩
    · exact Or.inr hr

theorem find_modify_self (h : t.Has k r) : (t.modify k f).find k = some (f r) :=
  find_eq_some_iff.mpr ((has_modify_of_has h).mpr (Or.inl ⟨rfl, rfl⟩))

theorem find_modify_of_ne (h : k' ≠ k) : (t.modify k f).find k' = t.find k' := by
  apply find_congr
  intro r
  simp [has_modify, h]

/-- `INSERT`: `none` is the unique violation of the primary key. -/
def insert (t : Table κ ρ) (k : κ) (r : ρ) : Option (Table κ ρ) :=
  if h : k ∈ t.rows.map Prod.fst then none
  else some
    { rows := t.rows ++ [(k, r)]
      nodup := by
        rw [List.map_append, List.nodup_append]
        refine ⟨t.nodup, by simp, ?_⟩
        rintro k1 h1 k2 h2 rfl
        simp only [List.map_cons, List.map_nil, List.mem_singleton] at h2
        exact h (h2 ▸ h1) }

/-- An insertion into the updated table. -/
theorem insert_update (t : Table κ ρ) (f : κ → ρ → ρ) (k : κ) (r : ρ) :
    (t.update f).insert k (f k r) = (t.insert k r).map fun t => t.update f := by
  have hkeys : (t.update f).rows.map Prod.fst = t.rows.map Prod.fst := by
    rw [update, List.map_map]
    rfl
  rw [insert, insert]
  by_cases h : k ∈ t.rows.map Prod.fst
  · rw [dif_pos h, dif_pos (hkeys ▸ h)]
    rfl
  · rw [dif_neg h, dif_neg (hkeys ▸ h), Option.map_some]
    simp only [update, List.map_append, List.map_cons, List.map_nil]

/-- An insertion goes through exactly when the key is free, and then adds
exactly the new row. -/
theorem insert_eq_some (h : t.insert k r = some t') :
    t.find k = none ∧
      ∀ k' r', t'.Has k' r' ↔ t.Has k' r' ∨ (k' = k ∧ r' = r) := by
  unfold insert at h
  split at h
  · cases h
  · rename_i hk
    injection h with h
    subst h
    refine ⟨?_, ?_⟩
    · rw [find_eq_none_iff]
      intro r' hr'
      exact hk (List.mem_map.mpr ⟨(k, r'), hr', rfl⟩)
    · intro k' r'
      simp [Has, List.mem_append]

/-- A free key can be inserted. -/
theorem insert_isSome (r : ρ) (h : t.find k = none) : ∃ t', t.insert k r = some t' := by
  have hk : k ∉ t.rows.map Prod.fst := by
    intro hmem
    obtain ⟨⟨k0, r0⟩, hrow, rfl⟩ := List.mem_map.mp hmem
    exact find_eq_none_iff.mp h r0 hrow
  simp [insert, hk]

/-- `INSERT … ON CONFLICT DO UPDATE`: replace the row under `k`, or add it. -/
def upsert (t : Table κ ρ) (k : κ) (r : ρ) : Table κ ρ :=
  match t.insert k r with
  | some t' => t'
  | none => t.modify k fun _ => r

theorem has_upsert {r' : ρ} :
    (t.upsert k r).Has k' r' ↔
      (k' = k ∧ r' = r) ∨ (k' ≠ k ∧ t.Has k' r') := by
  unfold upsert
  split
  · rename_i t' ht
    obtain ⟨hfree, hhas⟩ := insert_eq_some ht
    rw [hhas]
    by_cases hk : k' = k
    · subst hk
      simp [find_eq_none_iff.mp hfree r']
    · simp [hk]
  · rename_i hnone
    rw [has_modify]
    by_cases hk : k' = k
    · subst hk
      have hsome : ∃ r0, t.Has k' r0 := by
        by_contra hno
        push Not at hno
        obtain ⟨t', ht'⟩ := insert_isSome r (find_eq_none_iff.mpr hno)
        rw [ht'] at hnone
        cases hnone
      obtain ⟨r0, hr0⟩ := hsome
      constructor
      · rintro (⟨-, r1, -, rfl⟩ | ⟨hne, -⟩)
        · exact Or.inl ⟨rfl, rfl⟩
        · exact absurd rfl hne
      · rintro (⟨-, rfl⟩ | ⟨hne, -⟩)
        · exact Or.inl ⟨rfl, r0, hr0, rfl⟩
        · exact absurd rfl hne
    · simp [hk]

theorem find_upsert_self : (t.upsert k r).find k = some r :=
  find_eq_some_iff.mpr (has_upsert.mpr (Or.inl ⟨rfl, rfl⟩))

theorem find_upsert_of_ne (h : k' ≠ k) : (t.upsert k r).find k' = t.find k' := by
  apply find_congr
  intro r'
  simp [has_upsert, h]

end Keyed

end Table

end RogiCollector.Verified
