import Mathlib.Data.List.Sort

/-!
# Logs of which an end is retained

Rows are appended with increasing keys and dropped at the front only, so what
is retained is an end of the log.  A reader asks for the rows behind a key.
-/

namespace RogiCollector.Verified

variable {α β : Type} [LinearOrder β] {key : α → β} {l : List α}

/-- Behind a retained row everything is retained. -/
theorem mem_of_suffix (h : l.Pairwise fun a b => key a < key b) {kept : List α}
    (hkept : kept <:+ l) {a b : α} (ha : a ∈ kept) (hb : b ∈ l) (hlt : key a ≤ key b) :
    b ∈ kept := by
  obtain ⟨dropped, rfl⟩ := hkept
  rcases List.mem_append.mp hb with hb | hb
  · exact absurd ((List.pairwise_append.mp h).2.2 b hb a ha) (not_lt_of_ge hlt)
  · exact hb

/-- The first row behind a key, and those behind it. -/
theorem filter_lt_eq_cons (h : l.Pairwise fun a b => key a < key b) {bound : β} {a : α}
    {rest : List α} (hfilter : l.filter (fun x => bound < key x) = a :: rest) :
    a ∈ l ∧ bound < key a ∧ (∀ x ∈ l, bound < key x → key a ≤ key x) ∧
      l.filter (fun x => key a < key x) = rest := by
  have ha : a ∈ l.filter fun x => bound < key x := hfilter ▸ List.mem_cons_self
  rw [List.mem_filter, decide_eq_true_eq] at ha
  have hsorted := h.filter fun x => bound < key x
  rw [hfilter] at hsorted
  obtain ⟨hfirst, hrest⟩ := List.pairwise_cons.mp hsorted
  refine ⟨ha.1, ha.2, ?_, ?_⟩
  · intro x hx hlt
    have hmem : x ∈ a :: rest := hfilter ▸ List.mem_filter.mpr ⟨hx, by simpa using hlt⟩
    rcases List.mem_cons.mp hmem with rfl | hmem
    · exact le_rfl
    · exact (hfirst x hmem).le
  · have hnarrow : l.filter (fun x => key a < key x) =
        (l.filter fun x => bound < key x).filter fun x => key a < key x := by
      rw [List.filter_filter]
      refine List.filter_congr ?_
      intro x _
      by_cases hlt : key a < key x
      · simp [hlt, ha.2.trans hlt]
      · simp [hlt]
    rw [hnarrow, hfilter, List.filter_cons_of_neg (by simp), List.filter_eq_self]
    intro x hx
    simpa using hfirst x hx

/-- Behind the last of the first rows come the others. -/
theorem filter_lt_getLast_take (h : l.Pairwise fun a b => key a < key b) {n : Nat} {last : α}
    (hlast : (l.take n).getLast? = some last) :
    l.filter (fun x => key last < key x) = l.drop n := by
  obtain ⟨front, hfront⟩ := List.getLast?_eq_some_iff.mp hlast
  have hsplit : l = front ++ (last :: l.drop n) := by
    rw [List.append_cons, ← hfront, List.take_append_drop]
  rw [hsplit] at h
  obtain ⟨-, hback, hcross⟩ := List.pairwise_append.mp h
  have hnone : front.filter (fun x => key last < key x) = [] := by
    rw [List.filter_eq_nil_iff]
    intro x hx
    simpa using (hcross x hx last List.mem_cons_self).le
  have hall : (l.drop n).filter (fun x => key last < key x) = l.drop n := by
    rw [List.filter_eq_self]
    intro x hx
    simpa using (List.pairwise_cons.mp hback).1 x hx
  nth_rewrite 1 [hsplit]
  rw [List.filter_append, hnone, List.nil_append, List.filter_cons_of_neg (by simp), hall]

/-- Rows in order are a part of the log. -/
theorem sublist_of_key_lt_of_subset (h : l.Pairwise fun a b => key a < key b) {part : List α}
    (hpart : part.Pairwise fun a b => key a < key b) (hsub : ∀ a ∈ part, a ∈ l) :
    part.Sublist l := by
  induction l generalizing part with
  | nil =>
    cases part with
    | nil => exact List.Sublist.slnil
    | cons a part => exact absurd (hsub a List.mem_cons_self) List.not_mem_nil
  | cons x l ih =>
    obtain ⟨hx, hl⟩ := List.pairwise_cons.mp h
    cases part with
    | nil => exact List.nil_sublist _
    | cons a part =>
      obtain ⟨ha, hpart'⟩ := List.pairwise_cons.mp hpart
      rcases List.mem_cons.mp (hsub a List.mem_cons_self) with rfl | hmem
      · refine List.Sublist.cons_cons _ (ih hl hpart' ?_)
        intro b hb
        rcases List.mem_cons.mp (hsub b (List.mem_cons_of_mem _ hb)) with rfl | hb'
        · exact absurd (ha b hb) (lt_irrefl _)
        · exact hb'
      · refine List.Sublist.cons _ (ih hl hpart ?_)
        intro b hb
        rcases List.mem_cons.mp (hsub b hb) with rfl | hb'
        · rcases List.mem_cons.mp hb with rfl | hb
          · exact hmem
          · exact absurd ((hx a hmem).trans (ha b hb)) (lt_irrefl _)
        · exact hb'

end RogiCollector.Verified
