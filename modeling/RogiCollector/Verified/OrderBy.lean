import Mathlib.Data.List.Sort

/-!
# Ordered selections

`ORDER BY key LIMIT n` on lists of rows.  The main result,
`map_orderBy_eq_range'`, turns a set description of the keys (they are
exactly the numbers of an interval, each once) into the list description a
loop over the rows needs: the keys are consecutive.
-/

namespace RogiCollector.Verified

variable {α β : Type} [LinearOrder β]

/-- `ORDER BY key`, ascending. -/
def orderBy (key : α → β) (l : List α) : List α :=
  l.insertionSort fun a b => key a ≤ key b

section Order

variable (key : α → β)

private instance instTotalKey : Std.Total fun a b : α => key a ≤ key b :=
  ⟨fun a b => le_total (key a) (key b)⟩

private instance instTransKey : IsTrans α fun a b => key a ≤ key b :=
  ⟨fun _ _ _ => le_trans⟩

theorem orderBy_perm (l : List α) : (orderBy key l).Perm l :=
  List.perm_insertionSort _ l

@[simp] theorem mem_orderBy {l : List α} {a : α} : a ∈ orderBy key l ↔ a ∈ l :=
  (orderBy_perm key l).mem_iff

theorem orderBy_le (l : List α) :
    (orderBy key l).Pairwise fun a b => key a ≤ key b :=
  List.pairwise_insertionSort _ l

/-- Rows of equal keys keep their order. -/
theorem orderBy_stable (l : List α) : (orderBy key l).Pairwise fun a b =>
    key a < key b ∨ key a = key b ∧ [a, b].Sublist l := by
  induction l with
  | nil => exact List.Pairwise.nil
  | cons c l ih =>
    have hold : (orderBy key l).Pairwise fun a b =>
        key a < key b ∨ key a = key b ∧ [a, b].Sublist (c :: l) :=
      ih.imp fun h => h.imp_right fun h => ⟨h.1, h.2.cons c⟩
    have hmem : ∀ a ∈ orderBy key l, [c, a].Sublist (c :: l) := by
      intro a ha
      exact (List.singleton_sublist.mpr ((mem_orderBy key).mp ha)).cons_cons c
    have hle := orderBy_le key l
    -- The new row goes in front of the first one that is not smaller.
    rw [orderBy, List.insertionSort_cons, ← orderBy]
    generalize orderBy key l = sorted at hold hmem hle
    induction sorted with
    | nil => exact List.pairwise_singleton _ _
    | cons a sorted ih' =>
      rw [List.pairwise_cons] at hold hle
      rw [List.orderedInsert_cons]
      split
      · rename_i hca
        refine List.pairwise_cons.mpr ⟨?_, List.pairwise_cons.mpr hold⟩
        intro b hb
        have hcb : key c ≤ key b := by
          rcases List.mem_cons.mp hb with rfl | hb'
          · exact hca
          · exact hca.trans (hle.1 b hb')
        exact hcb.lt_or_eq.imp_right fun heq => ⟨heq, hmem b hb⟩
      · rename_i hca
        refine List.pairwise_cons.mpr ⟨?_, ?_⟩
        · intro b hb
          rcases List.mem_cons.mp ((List.perm_orderedInsert _ c sorted).mem_iff.mp hb) with
            rfl | hb'
          · exact Or.inl (not_le.mp hca)
          · exact hold.1 b hb'
        · exact ih' hold.2 (fun b hb => hmem b (List.mem_cons_of_mem _ hb)) hle.2

/-- Different keys come out strictly increasing. -/
theorem orderBy_lt {l : List α} (h : (l.map key).Nodup) :
    ((orderBy key l).map key).Pairwise (· < ·) := by
  have hnodup : ((orderBy key l).map key).Nodup :=
    ((orderBy_perm key l).map key).nodup_iff.mpr h
  have hle : ((orderBy key l).map key).Pairwise (· ≤ ·) :=
    List.pairwise_map.mpr (orderBy_le key l)
  exact (hle.and hnodup).imp fun h => lt_of_le_of_ne h.1 h.2

/-- Rewriting rows without touching the key commutes with ordering. -/
theorem orderBy_map {α' : Type} (f : α' → α) (l : List α') :
    orderBy key (l.map f) = (orderBy (fun a => key (f a)) l).map f :=
  (List.map_insertionSort _ _ f l fun _ _ _ _ => Iff.rfl).symm

end Order

/-- A window of a projection that is defined on every row. -/
theorem filterMap_window {γ : Type} {f : α → Option γ} (l : List α) (n m : Nat)
    (h : ∀ a ∈ l, (f a).isSome) :
    ((l.drop n).take m).filterMap f = ((l.filterMap f).drop n).take m := by
  induction l generalizing n m with
  | nil => simp
  | cons a l ih =>
    obtain ⟨b, hb⟩ := Option.isSome_iff_exists.mp (h a (by simp))
    have hl : ∀ a ∈ l, (f a).isSome := fun a ha => h a (List.mem_cons_of_mem _ ha)
    rw [List.filterMap_cons_some hb]
    cases n with
    | succ n => exact ih n m hl
    | zero =>
      cases m with
      | zero => rfl
      | succ m =>
        simp only [List.drop_zero, List.take_succ_cons]
        rw [List.filterMap_cons_some hb]
        have hrest := ih 0 m hl
        simp only [List.drop_zero] at hrest
        rw [hrest]

/-- Lists with the same keys are equal when a key determines its row. -/
theorem eq_of_map_eq {γ : Type} {key : α → γ} {l1 l2 : List α}
    (hinj : ∀ a ∈ l1, ∀ b ∈ l2, key a = key b → a = b) (h : l1.map key = l2.map key) :
    l1 = l2 := by
  induction l1 generalizing l2 with
  | nil =>
    cases l2 with
    | nil => rfl
    | cons b l2 => cases h
  | cons a l1 ih =>
    cases l2 with
    | nil => cases h
    | cons b l2 =>
      rw [List.map_cons, List.map_cons, List.cons.injEq] at h
      rw [hinj a (by simp) b (by simp) h.1]
      rw [ih (fun x hx y hy => hinj x (List.mem_cons_of_mem _ hx) y
        (List.mem_cons_of_mem _ hy)) h.2]

/-- A strictly increasing list is determined by its members. -/
theorem eq_of_lt_of_mem_iff {l1 l2 : List β} (h1 : l1.Pairwise (· < ·))
    (h2 : l2.Pairwise (· < ·)) (hmem : ∀ b, b ∈ l1 ↔ b ∈ l2) : l1 = l2 := by
  have hperm : l1.Perm l2 :=
    (List.perm_ext_iff_of_nodup (h1.imp ne_of_lt) (h2.imp ne_of_lt)).mpr hmem
  exact List.Perm.eq_of_pairwise (fun a b _ _ hab hba => absurd hba (lt_asymm hab))
    h1 h2 hperm

/-- Rows with strictly increasing keys are determined by their members. -/
theorem eq_of_key_lt_of_mem_iff {key : α → β} {l1 l2 : List α}
    (h1 : l1.Pairwise fun a b => key a < key b) (h2 : l2.Pairwise fun a b => key a < key b)
    (hmem : ∀ a, a ∈ l1 ↔ a ∈ l2) : l1 = l2 := by
  have hne : ∀ {a b : α}, key a < key b → a ≠ b := fun hlt heq => (heq ▸ hlt).false
  have hperm : l1.Perm l2 :=
    (List.perm_ext_iff_of_nodup (h1.imp hne) (h2.imp hne)).mpr hmem
  exact List.Perm.eq_of_pairwise (fun a b _ _ hab hba => absurd hba (lt_asymm hab))
    h1 h2 hperm

/-- A first part of rows with increasing keys holds those up to its last key. -/
theorem mem_take_iff_key_le {key : α → β} {l : List α}
    (h : l.Pairwise fun a b => key a < key b) {n : Nat} {last : α}
    (hlast : (l.take n).getLast? = some last) (a : α) :
    a ∈ l.take n ↔ a ∈ l ∧ key a ≤ key last := by
  obtain ⟨front, hfront⟩ := List.getLast?_eq_some_iff.mp hlast
  have hsplit : l = front ++ last :: l.drop n := by
    rw [List.append_cons, ← hfront, List.take_append_drop]
  rw [hsplit] at h
  obtain ⟨-, hback, hcross⟩ := List.pairwise_append.mp h
  constructor
  · intro ha
    refine ⟨List.mem_of_mem_take ha, ?_⟩
    rw [hfront] at ha
    rcases List.mem_append.mp ha with ha | ha
    · exact (hcross a ha last (by simp)).le
    · rw [List.mem_singleton.mp ha]
  · rintro ⟨ha, hle⟩
    rw [hfront]
    rw [hsplit] at ha
    rcases List.mem_append.mp ha with ha | ha
    · exact List.mem_append_left _ ha
    rcases List.mem_cons.mp ha with rfl | ha
    · simp
    · exact absurd ((List.pairwise_cons.mp hback).1 a ha) (not_lt_of_ge hle)

/-- Keys that fill `(a, b]`, each once, are consecutive once ordered. -/
theorem map_orderBy_eq_range' (key : α → Nat) {l : List α} {a b : Nat}
    (hnodup : (l.map key).Nodup) (hmem : ∀ o, o ∈ l.map key ↔ a < o ∧ o ≤ b) :
    (orderBy key l).map key = List.range' (a + 1) (b - a) := by
  apply eq_of_lt_of_mem_iff (orderBy_lt key hnodup) List.pairwise_lt_range'
  intro o
  rw [((orderBy_perm key l).map key).mem_iff, hmem, List.mem_range'_1]
  omega

end RogiCollector.Verified
