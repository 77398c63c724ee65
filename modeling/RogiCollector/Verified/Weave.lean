import Mathlib.Data.List.Basic
import Mathlib.Data.List.TakeWhile

/-!
# Weaving blocks into a sorted list, up to a bound

Rows with increasing keys are kept in two places: loose, in one list, and in
blocks that each own an interval of keys.  `weave` puts them back in order,
block by block.  `fill` is the accumulator of a reader that stops as soon as
it has `n` rows: what it holds at any time is `fill n [] l` for the part `l`
of the input it has seen, and a reader that asks for loose rows up to the same
bound does not notice the ones it did not ask for (`take_weave`).
-/

namespace RogiCollector.Verified

variable {α : Type}

/-! ## Filling -/

/-- Append rows of `l` until there are `n`. -/
def fill (n : Nat) (rows l : List α) : List α := rows ++ l.take (n - rows.length)

section Fill

variable {n : Nat} {rows l : List α}

@[simp] theorem fill_nil_right : fill n rows [] = rows := by
  simp [fill]

theorem fill_of_le (h : n ≤ rows.length) : fill n rows l = rows := by
  simp [fill, Nat.sub_eq_zero_of_le h]

theorem fill_cons {a : α} (h : rows.length < n) :
    fill n rows (a :: l) = fill n (rows ++ [a]) l := by
  obtain ⟨k, hk⟩ : ∃ k, n - rows.length = k + 1 := ⟨n - rows.length - 1, by omega⟩
  have hk' : n - (rows ++ [a]).length = k := by
    rw [List.length_append, List.length_singleton]
    omega
  rw [fill, fill, hk, hk', List.take_succ_cons, List.append_assoc, List.singleton_append]

/-- Room that is left was not needed. -/
theorem fill_eq_append (h : (fill n rows l).length < n) : fill n rows l = rows ++ l := by
  rw [fill, List.length_append, List.length_take] at h
  rw [fill, List.take_of_length_le (by omega)]

theorem fill_append (l' : List α) : fill n (fill n rows l) l' = fill n rows (l ++ l') := by
  by_cases h : (fill n rows l).length < n
  · have hrows := fill_eq_append h
    rw [hrows, List.length_append] at h
    rw [hrows, fill, fill, List.take_append, List.length_append, List.append_assoc,
      List.take_of_length_le (by omega : l.length ≤ n - rows.length), Nat.sub_sub]
  · rw [fill_of_le (Nat.le_of_not_lt h)]
    rw [fill, List.length_append, List.length_take] at h
    rw [fill, fill, List.take_append_of_le_length (by omega)]

end Fill

/-! ## Weaving -/

/-- Rows that own an interval of keys. -/
structure Block (key : α → Nat) where
  first : Nat
  last : Nat
  rows : List α
  inside : ∀ a ∈ rows, first ≤ key a ∧ key a ≤ last
  increasing : rows.Pairwise fun a b => key a < key b

/-- Loose rows before a block, its own rows, and so on. -/
def weave (key : α → Nat) : List (Block key) → List α → List α
  | [], l => l
  | b :: bs, l =>
    l.takeWhile (fun a => key a < b.first) ++
      (b.rows ++ weave key bs (l.dropWhile fun a => key a < b.first))

variable {key : α → Nat} {bs : List (Block key)} {l : List α}

theorem mem_weave {a : α} : a ∈ weave key bs l ↔ a ∈ l ∨ ∃ b ∈ bs, a ∈ b.rows := by
  induction bs generalizing l with
  | nil => simp [weave]
  | cons b bs ih =>
    have hsplit : a ∈ l ↔ a ∈ l.takeWhile (fun a => key a < b.first) ∨
        a ∈ l.dropWhile fun a => key a < b.first := by
      rw [← List.mem_append, List.takeWhile_append_dropWhile]
    rw [weave, List.mem_append, List.mem_append, ih, hsplit, List.exists_mem_cons_iff]
    constructor
    · rintro (h | h | h | h)
      · exact Or.inl (Or.inl h)
      · exact Or.inr (Or.inl h)
      · exact Or.inl (Or.inr h)
      · exact Or.inr (Or.inr h)
    · rintro ((h | h) | h | h)
      · exact Or.inl h
      · exact Or.inr (Or.inr (Or.inl h))
      · exact Or.inr (Or.inl h)
      · exact Or.inr (Or.inr (Or.inr h))

/-- What `dropWhile` leaves of an increasing list has reached the bound. -/
theorem le_key_of_mem_dropWhile (hl : l.Pairwise fun a b => key a < key b) {bound : Nat} {a : α}
    (ha : a ∈ l.dropWhile fun a => key a < bound) : bound ≤ key a := by
  induction l with
  | nil => cases ha
  | cons x l ih =>
    obtain ⟨hx, hl⟩ := List.pairwise_cons.mp hl
    by_cases hlt : key x < bound
    · rw [List.dropWhile_cons_of_pos (by simpa using hlt)] at ha
      exact ih hl ha
    · rw [List.dropWhile_cons_of_neg (by simpa using hlt)] at ha
      rcases List.mem_cons.mp ha with rfl | ha
      · exact Nat.le_of_not_lt hlt
      · have hxa := hx a ha
        omega

/-- Blocks in order, and loose rows outside their intervals. -/
theorem weave_increasing (hl : l.Pairwise fun a b => key a < key b)
    (hle : ∀ b ∈ bs, b.first ≤ b.last) (hbs : bs.Pairwise fun b b' => b.last < b'.first)
    (hout : ∀ b ∈ bs, ∀ a ∈ l, key a < b.first ∨ b.last < key a) :
    (weave key bs l).Pairwise fun a b => key a < key b := by
  induction bs generalizing l with
  | nil => exact hl
  | cons b bs ih =>
    obtain ⟨hb, hbs⟩ := List.pairwise_cons.mp hbs
    have hdrop := List.dropWhile_sublist (l := l) fun a => key a < b.first
    -- Everything behind the block lies behind its interval.
    have hrest : ∀ a ∈ weave key bs (l.dropWhile fun a => key a < b.first), b.last < key a := by
      intro a ha
      rcases mem_weave.mp ha with ha | ⟨b', hb', ha⟩
      · have hge := le_key_of_mem_dropWhile hl ha
        rcases hout b List.mem_cons_self a (hdrop.subset ha) with hlt | hlt
        · omega
        · exact hlt
      · have hlt := hb b' hb'
        have hge := (b'.inside a ha).1
        omega
    have hbefore : ∀ a ∈ l.takeWhile (fun a => key a < b.first), key a < b.first := by
      intro a ha
      simpa using List.mem_takeWhile_imp ha
    have hle0 := hle b List.mem_cons_self
    rw [weave]
    refine List.pairwise_append.mpr ⟨hl.sublist (List.takeWhile_sublist _), ?_, ?_⟩
    · refine List.pairwise_append.mpr ⟨b.increasing, ?_, ?_⟩
      · refine ih (hl.sublist hdrop) (fun b' hb' => hle b' (List.mem_cons_of_mem _ hb')) hbs ?_
        intro b' hb' a ha
        exact hout b' (List.mem_cons_of_mem _ hb') a (hdrop.subset ha)
      · intro a ha a' ha'
        have hlast := (b.inside a ha).2
        have hlt := hrest a' ha'
        omega
    · intro a ha a' ha'
      have hlt := hbefore a ha
      rcases List.mem_append.mp ha' with ha' | ha'
      · have hge := (b.inside a' ha').1
        omega
      · have hgt := hrest a' ha'
        omega

theorem dropWhile_take {p : α → Bool} (l : List α) (k : Nat) :
    (l.take k).dropWhile p = (l.dropWhile p).take (k - (l.takeWhile p).length) := by
  induction l generalizing k with
  | nil => simp
  | cons a l ih =>
    cases k with
    | zero => simp
    | succ k =>
      cases hp : p a with
      | true => simp [hp, ih]
      | false => simp [hp]

/-- The first `n` rows need at most `n` loose ones. -/
theorem take_weave {n k : Nat} (h : n ≤ k) :
    (weave key bs (l.take k)).take n = (weave key bs l).take n := by
  induction bs generalizing l n k with
  | nil =>
    rw [weave, weave, List.take_take, Nat.min_eq_left h]
  | cons b bs ih =>
    rw [weave, weave, ← List.take_takeWhile, dropWhile_take]
    generalize l.takeWhile (fun a => key a < b.first) = front
    by_cases hn : n ≤ front.length
    · rw [List.take_append_of_le_length (by rw [List.length_take]; omega), List.take_take,
        Nat.min_eq_left h, List.take_append_of_le_length hn]
    · rw [List.take_of_length_le (by omega : front.length ≤ k)]
      simp only [List.take_append]
      rw [ih (by omega)]

end RogiCollector.Verified
