import RogiCollector.Verified.OrderBy

/-!
# Paging by key

A reader asks for the first rows behind the last key it has seen, again and again,
while rows are added.  What it has listed at any time is in order, and it has
listed all old rows up to its key.
-/

namespace RogiCollector.Verified

variable {α κ : Type} [LinearOrder κ]

/-- The rows behind a key, in order. -/
def behind (key : α → κ) (after : Option κ) (rows : List α) : List α :=
  orderBy key (rows.filter fun a => after.all fun k => k < key a)

theorem mem_behind {key : α → κ} {after : Option κ} {rows : List α} {a : α} :
    a ∈ behind key after rows ↔ a ∈ rows ∧ ∀ k ∈ after, k < key a := by
  rw [behind, mem_orderBy, List.mem_filter, Option.all_eq_true]
  simp

theorem behind_lt {key : α → κ} {after : Option κ} {rows : List α} (h : (rows.map key).Nodup) :
    (behind key after rows).Pairwise fun a b => key a < key b :=
  List.pairwise_map.mp (orderBy_lt key (h.sublist (List.filter_sublist.map key)))

/-- What was listed up to a key: in order, and with all keys of `old` up to there. -/
structure Listing (key : α → κ) (old : κ → Prop) (listed : List α) (after : Option κ) : Prop where
  increasing : listed.Pairwise fun a b => key a < key b
  upTo : ∀ a ∈ listed, ∃ k ∈ after, key a ≤ k
  complete : ∀ k, old k → (∃ k' ∈ after, k ≤ k') → ∃ a ∈ listed, key a = k

namespace Listing

variable {key : α → κ} {old : κ → Prop} {listed : List α} {after : Option κ} {rows : List α}

theorem start (key : α → κ) (old : κ → Prop) : Listing key old [] none :=
  ⟨List.Pairwise.nil, by simp, by simp⟩

variable (h : Listing key old listed after) (hnodup : (rows.map key).Nodup)

include h

/-- Rows behind the key can follow what was listed. -/
theorem lt_of_mem_behind {a b : α} (ha : a ∈ listed) (hb : b ∈ behind key after rows) :
    key a < key b := by
  obtain ⟨k, hk, hle⟩ := h.upTo a ha
  exact lt_of_le_of_lt hle ((mem_behind.mp hb).2 k hk)

include hnodup

theorem append_lt (n : Nat) :
    (listed ++ (behind key after rows).take n).Pairwise fun a b => key a < key b := by
  refine List.pairwise_append.mpr ⟨h.increasing, ?_, ?_⟩
  · exact (behind_lt hnodup).sublist (List.take_sublist n _)
  · intro a ha b hb
    exact h.lt_of_mem_behind ha (List.mem_of_mem_take hb)

variable (hold : ∀ k, old k → ∃ a ∈ rows, key a = k)

include hold

omit hnodup in
/-- An old key was listed, or is still ahead. -/
theorem listed_or_behind {k : κ} (hk : old k) :
    (∃ a ∈ listed, key a = k) ∨ ∃ a ∈ behind key after rows, key a = k := by
  by_cases hbefore : ∃ k' ∈ after, k ≤ k'
  · exact Or.inl (h.complete k hk hbefore)
  · obtain ⟨a, ha, rfl⟩ := hold k hk
    refine Or.inr ⟨a, mem_behind.mpr ⟨ha, ?_⟩, rfl⟩
    intro k' hk'
    by_contra hle
    exact hbefore ⟨k', hk', not_lt.mp hle⟩

/-- One more page. -/
theorem page {n : Nat} {last : α}
    (hlast : ((behind key after rows).take n).getLast? = some last) :
    Listing key old (listed ++ (behind key after rows).take n) (some (key last)) := by
  have hmem := mem_take_iff_key_le (behind_lt hnodup) hlast
  have hlastMem : last ∈ behind key after rows :=
    List.mem_of_mem_take (List.mem_of_getLast? hlast)
  refine ⟨h.append_lt hnodup n, ?_, ?_⟩
  · intro a ha
    refine ⟨key last, rfl, ?_⟩
    rcases List.mem_append.mp ha with hold' | hnew
    · exact le_of_lt (h.lt_of_mem_behind hold' hlastMem)
    · exact ((hmem a).mp hnew).2
  · rintro k hk ⟨k', hk', hle⟩
    cases hk'
    rcases h.listed_or_behind hold hk with ⟨a, ha, rfl⟩ | ⟨a, ha, rfl⟩
    · exact ⟨a, List.mem_append_left _ ha, rfl⟩
    · exact ⟨a, List.mem_append_right _ ((hmem a).mpr ⟨ha, hle⟩), rfl⟩

omit hnodup in
/-- The page behind which there is nothing. -/
theorem final {k : κ} (hk : old k) : ∃ a ∈ listed ++ behind key after rows, key a = k := by
  rcases h.listed_or_behind hold hk with ⟨a, ha, hkey⟩ | ⟨a, ha, hkey⟩
  · exact ⟨a, List.mem_append_left _ ha, hkey⟩
  · exact ⟨a, List.mem_append_right _ ha, hkey⟩

end Listing

end RogiCollector.Verified
