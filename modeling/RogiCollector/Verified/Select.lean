import Mathlib.Data.List.Nodup
import Mathlib.Data.List.Perm.Basic

/-!
# Selections

`DISTINCT ON`, `LEFT JOIN` and pages of `LIMIT` and `OFFSET`, on lists of rows.
-/

namespace RogiCollector.Verified

variable {α β κ : Type}

section DistinctOn

variable [DecidableEq κ] {key : α → κ}

/-- `SELECT DISTINCT ON (key)`: the first row of each key. -/
def distinctOn (key : α → κ) : List α → List α
  | [] => []
  | a :: l => a :: (distinctOn key l).filter fun b => key b ≠ key a

variable {l : List α} {a : α}

theorem mem_of_mem_distinctOn (h : a ∈ distinctOn key l) : a ∈ l := by
  induction l with
  | nil => simp [distinctOn] at h
  | cons b l ih =>
    rcases List.mem_cons.mp h with rfl | h
    · exact List.mem_cons_self
    · exact List.mem_cons_of_mem _ (ih (List.mem_filter.mp h).1)

theorem exists_distinctOn (h : a ∈ l) : ∃ b ∈ distinctOn key l, key b = key a := by
  induction l with
  | nil => simp at h
  | cons c l ih =>
    by_cases hkey : key a = key c
    · exact ⟨c, List.mem_cons_self, hkey.symm⟩
    · rcases List.mem_cons.mp h with rfl | h
      · exact absurd rfl hkey
      · obtain ⟨b, hb, hba⟩ := ih h
        refine ⟨b, List.mem_cons_of_mem _ (List.mem_filter.mpr ⟨hb, ?_⟩), hba⟩
        simpa [hba] using hkey

theorem nodup_distinctOn (l : List α) : ((distinctOn key l).map key).Nodup := by
  induction l with
  | nil => simp [distinctOn]
  | cons a l ih =>
    rw [distinctOn, List.map_cons, List.nodup_cons]
    constructor
    · intro hmem
      obtain ⟨b, hb, hkey⟩ := List.mem_map.mp hmem
      simpa [hkey] using (List.mem_filter.mp hb).2
    · exact List.Nodup.sublist (List.filter_sublist.map key) ih

/-- In ordered rows it is one that no row of its key stands before. -/
theorem distinctOn_first {r : α → α → Prop} (hl : l.Pairwise r) {b : α}
    (ha : a ∈ distinctOn key l) (hb : b ∈ l) (hkey : key b = key a) : b = a ∨ r a b := by
  induction l with
  | nil => simp at hb
  | cons c l ih =>
    rw [List.pairwise_cons] at hl
    rcases List.mem_cons.mp ha with rfl | ha
    · rcases List.mem_cons.mp hb with rfl | hb
      · exact Or.inl rfl
      · exact Or.inr (hl.1 b hb)
    · obtain ⟨ha, hne⟩ := List.mem_filter.mp ha
      rcases List.mem_cons.mp hb with rfl | hb
      · simp [hkey] at hne
      · exact ih hl.2 ha hb

end DistinctOn

section LeftJoin

/-- The rows one left row is joined with. -/
def matchRows (on : α → β → Bool) (right : List β) (a : α) : List (α × Option β) :=
  match right.filter (on a) with
  | [] => [(a, none)]
  | bs => bs.map fun b => (a, some b)

/-- `LEFT JOIN`. -/
def leftJoin (on : α → β → Bool) (left : List α) (right : List β) : List (α × Option β) :=
  left.flatMap (matchRows on right)

variable {on : α → β → Bool} {left : List α} {right : List β}

variable {a : α}

theorem fst_of_mem_matchRows {x : α × Option β} (h : x ∈ matchRows on right a) : x.1 = a := by
  unfold matchRows at h
  split at h
  · rw [List.mem_singleton.mp h]
  · obtain ⟨b, -, rfl⟩ := List.mem_map.mp h
    rfl

theorem length_matchRows (a : α) :
    (matchRows on right a).length = max 1 (right.filter (on a)).length := by
  unfold matchRows
  split
  · rename_i hnil
    rw [hnil]
    rfl
  · rename_i hne
    have hpos : 0 < (right.filter (on a)).length := by
      rw [List.length_pos_iff]
      exact hne
    rw [List.length_map]
    omega

/-- Conditions that agree on the rows join the same. -/
theorem leftJoin_congr {on' : α → β → Bool} (h : ∀ a, ∀ b ∈ right, on a b = on' a b) :
    leftJoin on left right = leftJoin on' left right := by
  have hrows : matchRows on right = matchRows on' right := by
    funext a
    rw [matchRows, matchRows, List.filter_congr (h a)]
  rw [leftJoin, leftJoin, hrows]

theorem fst_mem_of_mem_leftJoin {x : α × Option β} (h : x ∈ leftJoin on left right) :
    x.1 ∈ left := by
  obtain ⟨a, ha, hx⟩ := List.mem_flatMap.mp h
  rwa [fst_of_mem_matchRows hx]

/-- If the left rows have different keys, the rows of a key are those of its left row. -/
theorem filter_leftJoin [DecidableEq κ] {key : α → κ} (hnodup : (left.map key).Nodup)
    (h : a ∈ left) :
    (leftJoin on left right).filter (fun x => key x.1 = key a) = matchRows on right a := by
  induction left with
  | nil => simp at h
  | cons b left ih =>
    rw [List.map_cons, List.nodup_cons] at hnodup
    rw [leftJoin, List.flatMap_cons, List.filter_append]
    rcases List.mem_cons.mp h with rfl | h
    · have hown : (matchRows on right a).filter (fun x => key x.1 = key a) =
          matchRows on right a := by
        refine List.filter_eq_self.mpr fun x hx => ?_
        simp [fst_of_mem_matchRows hx]
      have hothers : (left.flatMap (matchRows on right)).filter (fun x => key x.1 = key a) =
          [] := by
        refine List.filter_eq_nil_iff.mpr fun x hx => ?_
        have hmem := List.mem_map_of_mem (f := key) (fst_mem_of_mem_leftJoin hx)
        simp only [decide_eq_true_eq]
        intro heq
        exact hnodup.1 (heq ▸ hmem)
      rw [hown, hothers, List.append_nil]
    · have hne : key b ≠ key a := fun heq => hnodup.1 (heq ▸ List.mem_map_of_mem h)
      have hown : (matchRows on right b).filter (fun x => key x.1 = key a) = [] := by
        refine List.filter_eq_nil_iff.mpr fun x hx => ?_
        simpa [fst_of_mem_matchRows hx] using hne
      rw [hown, List.nil_append]
      exact ih hnodup.2 h

end LeftJoin

section Pages

/-- `LIMIT limit OFFSET offset`. -/
def page (l : List α) (limit offset : Nat) : List α := (l.drop offset).take limit

theorem page_eq_nil {l : List α} {limit offset : Nat} (hlimit : 1 ≤ limit) :
    page l limit offset = [] ↔ l.length ≤ offset := by
  rw [page, ← List.length_eq_zero_iff, List.length_take, List.length_drop]
  omega

/-- The first pages, one after the other. -/
theorem flatMap_pages (l : List α) (limit count : Nat) :
    (List.range count).flatMap (fun k => page l limit (k * limit)) = l.take (count * limit) := by
  induction count with
  | zero => simp
  | succ count ih =>
    rw [Nat.succ_mul, List.take_add, ← ih, List.range_succ, List.flatMap_append]
    simp [page]

/-- Every row is on one of the pages. -/
theorem exists_page {l : List α} {limit : Nat} (hlimit : 1 ≤ limit) {a : α} (ha : a ∈ l) :
    ∃ k, a ∈ page l limit (k * limit) := by
  have hall := flatMap_pages l limit l.length
  rw [List.take_of_length_le (Nat.le_mul_of_pos_right _ hlimit)] at hall
  rw [← hall, List.mem_flatMap] at ha
  obtain ⟨k, -, hk⟩ := ha
  exact ⟨k, hk⟩

end Pages

end RogiCollector.Verified
